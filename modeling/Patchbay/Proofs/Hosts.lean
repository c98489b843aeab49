import Patchbay.Host
import Patchbay.Proofs.Bytes
import Patchbay.Proofs.Results
import Patchbay.Proofs.Tables

/-!
# Files read back

A walk along a path enters directories and nothing else. So what is put where no directory is leaves
every walk as it was: a file that was written is found again under its path, with what was written.
-/

namespace Patchbay.Host

variable {h after : Host} {p q r : Place} {e : Entry} {spot : Spot} {path step : String}
  {bytes : Bytes}

theorem entryAt?_put (below : p ≠ []) (q : Place) :
    (h.put p e).entryAt? q = if p = q then some e else h.entryAt? q := by
  cases q with
  | nil => exact (if_neg below).symm
  | cons name q => exact Table.find?_put h.entries p (name :: q) e

/-! ## Walks -/

/-- A step stays, goes up, or leads into a directory that is there. -/
theorem enter_eq_ok_iff :
    h.enter q step = .ok r ↔
      step = "." ∧ q = r ∨ step = ".." ∧ q.dropLast = r ∨
        (step ≠ "." ∧ step ≠ ".." ∧ step.utf8ByteSize ≤ nameLimit) ∧
          h.entryAt? (q ++ [step]) = some .directory ∧ q ++ [step] = r := by
  unfold enter
  split
  · simp
  · simp
  · next here up =>
    have here : step ≠ "." := here
    have up : step ≠ ".." := up
    split
    · next long => simp [here, up, Nat.not_le_of_lt long]
    · next short =>
      have fits : step.utf8ByteSize ≤ nameLimit := Nat.le_of_not_lt short
      split
      · next found => simp [here, up, fits, found]
      · next entry found other => simp_all
      · next found => simp [here, up, found]

/-- A step that was taken is taken still when something is put where no directory was. -/
theorem enter_put (below : p ≠ []) (apart : h.entryAt? p ≠ some .directory)
    (entered : h.enter q step = .ok r) : (h.put p e).enter q step = .ok r := by
  rw [enter_eq_ok_iff] at entered ⊢
  refine entered.imp_right (Or.imp_right fun ⟨name, found, same⟩ => ⟨name, ?_, same⟩)
  have elsewhere : p ≠ q ++ [step] := fun here => apart (here ▸ found)
  rw [entryAt?_put below, if_neg elsewhere]
  exact found

theorem foldlM_enter_put (below : p ≠ []) (apart : h.entryAt? p ≠ some .directory)
    {steps : List String} (entered : steps.foldlM h.enter q = .ok r) :
    steps.foldlM (h.put p e).enter q = .ok r := by
  induction steps generalizing q with
  | nil => exact entered
  | cons step steps ih =>
    rw [List.foldlM_cons, bind_eq_ok_iff] at entered ⊢
    obtain ⟨s, first, others⟩ := entered
    exact ⟨s, enter_put below apart first, ih others⟩

/-- So is a whole walk. -/
theorem approach_put (below : p ≠ []) (apart : h.entryAt? p ≠ some .directory)
    (reached : h.approach path = .ok spot) : (h.put p e).approach path = .ok spot := by
  unfold approach at reached ⊢
  split at reached
  · cases reached
  · split at reached
    · cases reached
    · split at reached
      · cases reached
      · next some whole short =>
        rw [if_neg some, if_neg whole, if_neg short]
        split at reached
        · exact reached
        · next last ends =>
          rw [bind_eq_ok_iff] at reached ⊢
          obtain ⟨s, entered, reached⟩ := reached
          exact ⟨s, foldlM_enter_put below apart entered, reached⟩

/-- What is named lies in a directory. -/
theorem ne_nil_of_approach {asDirectory : Bool}
    (reached : h.approach path = .ok (.named p asDirectory)) : p ≠ [] := by
  unfold approach at reached
  split at reached
  · cases reached
  · split at reached
    · cases reached
    · split at reached
      · cases reached
      · split at reached
        · cases reached
        · rw [bind_eq_ok_iff] at reached
          obtain ⟨s, -, reached⟩ := reached
          split at reached
          · cases reached
          · cases reached
          · split at reached
            · cases reached
            · cases reached
              exact List.concat_ne_nil _ s

/-! ## Writing and reading -/

/-- The path names a file, or a place in a directory where nothing is yet. -/
def Keeps (h : Host) (path : String) : Prop :=
  ∃ p, h.approach path = .ok (.named p false) ∧
    (h.entryAt? p = none ∨ ∃ bytes, h.entryAt? p = some (.file bytes))

theorem find_eq_ok (reached : h.approach path = .ok (.named p false))
    (there : h.entryAt? p = some e) : h.find path = .ok (p, e) := by
  rw [find, reached, ok_bind]
  dsimp only
  rw [there]
  cases e with
  | directory | file _ | socket | device => rfl

/-- What is written where it is kept can be written, and is then read. -/
theorem read_of_keeps (keeps : h.Keeps path) (bytes : Bytes) :
    ∃ after, h.write path bytes = .ok after ∧ after.read path = .ok bytes := by
  obtain ⟨p, reached, free⟩ := keeps
  have below := ne_nil_of_approach reached
  have apart : h.entryAt? p ≠ some .directory := by
    rcases free with none | ⟨old, some⟩
    · simp [none]
    · simp [some]
  refine ⟨h.put p (.file bytes), ?_, ?_⟩
  · rw [write, reached, ok_bind]
    rcases free with none | ⟨old, some⟩
    · simp [none]
    · simp [some]
  · have there : (h.put p (.file bytes)).entryAt? p = some (.file bytes) := by
      rw [entryAt?_put below, if_pos rfl]
    rw [read, find_eq_ok (approach_put below apart reached) there, ok_bind]

/-- Where it is not kept it is refused, or a device takes it and gives nothing. -/
theorem keeps_of_write (wrote : h.write path bytes = .ok after) :
    h.Keeps path ∨ after.read path = .ok [] := by
  rw [write, bind_eq_ok_iff] at wrote
  obtain ⟨spot, reached, wrote⟩ := wrote
  cases spot with
  | directory p => cases wrote
  | named p asDirectory =>
    cases asDirectory with
    | true => cases wrote
    | false =>
      simp only [Bool.false_eq_true, if_false] at wrote
      split at wrote
      · cases wrote
      · cases wrote
      · next found =>
        cases wrote
        right
        rw [read, find_eq_ok reached found, ok_bind]
      · next noDirectory noSocket noDevice =>
        left
        refine ⟨p, reached, ?_⟩
        cases found : h.entryAt? p with
        | none => exact .inl rfl
        | some e =>
          cases e with
          | file old => exact .inr ⟨old, rfl⟩
          | directory => exact absurd found noDirectory
          | socket => exact absurd found noSocket
          | device => exact absurd found noDevice

/-- A text is read as it was written. -/
theorem readText_of_read {text : String} (held : h.read path = .ok (Bytes.ofText text)) :
    h.readText path = .ok text := by
  rw [readText, held, ok_bind, Bytes.text?_ofText]

end Patchbay.Host
