import Patchbay.Json.Document
import Patchbay.Json.Value
import Patchbay.Proofs.Values
import Patchbay.Proofs.Json.Grammar

/-!
# Two ways to read a value

A text is read as a value at once, or as a generic document that is converted. On a tree in which no
object repeats a key and no integer lies between the two 64-bit ranges both ways come to the same, the
refusals included. Any other tree is refused by the first way.
-/

namespace Patchbay.Json

/-- An integer beyond the signed range and within the unsigned one. -/
def Literal.Wide (l : Literal) : Prop :=
  l.IsInteger ∧ l.negative = false ∧ 2 ^ 63 ≤ l.magnitude ∧ l.magnitude < 2 ^ 64

namespace Tree

/-- A property that holds of an array when it holds of its items, and of an object when it holds of what
stands in its entries, holds of every tree that is nested so. -/
@[elab_as_elim]
theorem induct {motive : Tree → Prop} (null : motive .null) (bool : ∀ b, motive (.bool b))
    (number : ∀ l, motive (.number l)) (string : ∀ s, motive (.string s))
    (array : ∀ items : List Tree, (∀ t ∈ items, motive t) → motive (.array items))
    (object : ∀ entries : List (String × Tree), (∀ entry ∈ entries, motive entry.2) →
      motive (.object entries)) (t : Tree) : motive t :=
  match t with
  | .null => null
  | .bool b => bool b
  | .number l => number l
  | .string s => string s
  | .array items => array items fun t _ => induct null bool number string array object t
  | .object entries =>
    object entries fun entry _ => induct null bool number string array object entry.2
termination_by t
decreasing_by
  · decreasing_tactic
  · have inside := Value.sizeOf_lt_of_entry ‹entry ∈ entries›
    simp only [Tree.object.sizeOf_spec]
    omega

/-- One tree is another or stands in it. -/
inductive Within (s : Tree) : Tree → Prop where
  | self : Within s s
  | item {t : Tree} {items : List Tree} (member : t ∈ items) (within : Within s t) :
      Within s (.array items)
  | entry {key : String} {t : Tree} {entries : List (String × Tree)} (member : (key, t) ∈ entries)
      (within : Within s t) : Within s (.object entries)

/-- An object in the tree has a key twice, be it spelled in two ways. -/
def RepeatsKey (t : Tree) : Prop :=
  ∃ entries, Within (.object entries) t ∧ ¬ (entries.map Prod.fst).Nodup

/-- A literal in the tree is wide. -/
def HasWide (t : Tree) : Prop := ∃ l, Within (.number l) t ∧ l.Wide

/-- There is something in the tree that only the strict builder refuses. -/
def Loose (t : Tree) : Prop := t.RepeatsKey ∨ t.HasWide

theorem loose_number_iff {l : Literal} : (number l).Loose ↔ l.Wide := by
  constructor
  · rintro (⟨entries, within, -⟩ | ⟨l, within, wide⟩)
    · cases within
    · cases within
      exact wide
  · exact fun wide => .inr ⟨l, .self, wide⟩

theorem loose_array_iff {items : List Tree} :
    (array items).Loose ↔ ∃ t ∈ items, t.Loose := by
  constructor
  · rintro (⟨entries, within, repeated⟩ | ⟨l, within, wide⟩)
    · cases within with
      | item member within => exact ⟨_, member, .inl ⟨entries, within, repeated⟩⟩
    · cases within with
      | item member within => exact ⟨_, member, .inr ⟨l, within, wide⟩⟩
  · rintro ⟨t, member, ⟨entries, within, repeated⟩ | ⟨l, within, wide⟩⟩
    · exact .inl ⟨entries, .item member within, repeated⟩
    · exact .inr ⟨l, .item member within, wide⟩

theorem loose_object_iff {entries : List (String × Tree)} :
    (object entries).Loose ↔
      ¬ (entries.map Prod.fst).Nodup ∨ ∃ entry ∈ entries, entry.2.Loose := by
  constructor
  · rintro (⟨inner, within, repeated⟩ | ⟨l, within, wide⟩)
    · cases within with
      | self => exact .inl repeated
      | entry member within => exact .inr ⟨_, member, .inl ⟨inner, within, repeated⟩⟩
    · cases within with
      | entry member within => exact .inr ⟨_, member, .inr ⟨l, within, wide⟩⟩
  · rintro (repeated | ⟨entry, member, ⟨inner, within, repeated⟩ | ⟨l, within, wide⟩⟩)
    · exact .inl ⟨entries, .self, repeated⟩
    · exact .inl ⟨inner, .entry member within, repeated⟩
    · exact .inr ⟨l, .entry member within, wide⟩

end Tree

/-! ## What the strict builder accepts -/

section Accepted

variable {α : Type} {b : Builder α} {depth : Nat}

theorem built_items {ts : List Tree} {as : List α} (built : Tree.buildItems b depth ts = .ok as) :
    ∀ t ∈ ts, ∃ a, t.build b depth = .ok a := by
  induction ts generalizing as with
  | nil => nofun
  | cons t rest ih =>
    rw [Tree.buildItems, bind_eq_ok_iff] at built
    obtain ⟨a, first, built⟩ := built
    obtain ⟨others, listed, -⟩ := bind_eq_ok_iff.1 built
    exact List.forall_mem_cons.2 ⟨⟨a, first⟩, ih listed⟩

theorem built_entries {seen : Std.HashSet String} {ts : List (String × Tree)}
    {as : List (String × α)} (built : Tree.buildEntries b depth seen ts = .ok as) :
    as.map Prod.fst = ts.map Prod.fst ∧ ∀ entry ∈ ts, ∃ a, entry.2.build b depth = .ok a := by
  induction ts generalizing seen as with
  | nil =>
    cases built
    exact ⟨rfl, nofun⟩
  | cons entry rest ih =>
    rw [Tree.buildEntries] at built
    split at built
    · cases built
    · obtain ⟨a, first, built⟩ := bind_eq_ok_iff.1 built
      obtain ⟨others, listed, same⟩ := bind_eq_ok_iff.1 built
      cases same
      obtain ⟨keys, each⟩ := ih listed
      exact ⟨by simp [keys], List.forall_mem_cons.2 ⟨⟨a, first⟩, each⟩⟩

/-- A builder that allows no repeats has seen none. -/
theorem fresh_of_built (once : b.repeats = false) {seen : Std.HashSet String}
    {ts : List (String × Tree)} {as : List (String × α)}
    (built : Tree.buildEntries b depth seen ts = .ok as) : Value.FreshKeys seen (ts.map Prod.fst) := by
  induction ts generalizing seen as with
  | nil => exact ⟨.nil, nofun⟩
  | cons entry rest ih =>
    rw [Tree.buildEntries, once] at built
    split at built
    · cases built
    · next unseen =>
      obtain ⟨a, first, built⟩ := bind_eq_ok_iff.1 built
      obtain ⟨others, listed, -⟩ := bind_eq_ok_iff.1 built
      exact Value.freshKeys_cons_iff.2 ⟨by simpa using unseen, ih listed⟩

end Accepted

/-! ## Generic documents -/

namespace Document

theorem toItems_eq_map (items : List Document) : toItems items = items.map toValue := by
  induction items with
  | nil => rfl
  | cons d rest ih => rw [toItems, ih, List.map_cons]

theorem toFields_eq_map (entries : List (String × Document)) :
    toFields entries = entries.map fun (key, d) => (key, d.toValue) := by
  induction entries with
  | nil => rfl
  | cons entry rest ih => rw [toFields, ih, List.map_cons]

theorem firstPlaces_of_fresh {latest : Std.HashMap String Document} {seen : Std.HashSet String}
    {entries : List (String × Document)} (found : List (String × Document))
    (fresh : Value.FreshKeys seen (entries.map Prod.fst))
    (known : ∀ entry ∈ entries, latest.getD entry.1 entry.2 = entry.2) :
    firstPlaces latest seen found entries = found.reverse ++ entries := by
  induction entries generalizing seen found with
  | nil => simp [firstPlaces]
  | cons entry rest ih =>
    obtain ⟨unseen, fresh⟩ := Value.freshKeys_cons_iff.1 fresh
    obtain ⟨first, known⟩ := List.forall_mem_cons.1 known
    rw [firstPlaces, if_neg (by simpa using unseen), first, ih _ fresh known]
    simp

/-- Entries with different keys are kept as they are. -/
theorem ofEntries_of_nodup {entries : List (String × Document)}
    (distinct : (entries.map Prod.fst).Nodup) : ofEntries entries = .object entries := by
  have apart : entries.Pairwise fun a b => (a.1 == b.1) = false := by
    rw [List.Nodup, List.pairwise_map] at distinct
    simpa using distinct
  rw [ofEntries, firstPlaces_of_fresh [] (Value.freshKeys_empty_iff.2 distinct)]
  · rfl
  · exact fun entry member => Std.HashMap.getD_ofList_of_mem BEq.rfl apart member

end Document

/-! ## Both ways on one tree -/

open Value (strict ofNumber)
open Document (tolerant toValue)

/-- A number that the strict builder takes is the same value both ways. -/
theorem ofNumber_eq_toValue {l : Literal} {n : Number} (number : l.number? = some n)
    (narrow : ¬ l.Wide) : ofNumber n = .ok (toValue (.number n)) := by
  cases n with
  | natural n =>
    obtain ⟨integer, unsigned, rfl, bound⟩ := Literal.number?_natural_iff.1 number
    have signed : l.magnitude < 0x8000000000000000 := by
      by_contra large
      exact narrow ⟨integer, unsigned, Nat.le_of_not_lt large, bound⟩
    rw [ofNumber, if_pos signed, toValue, if_pos signed]
  | negative i => rw [ofNumber, toValue]
  | float x => rw [ofNumber, toValue]

theorem buildItems_strict {depth : Nat} {ts : List Tree}
    (each : ∀ t ∈ ts, t.build strict depth = (t.build tolerant depth).map toValue) :
    Tree.buildItems strict depth ts =
      (Tree.buildItems tolerant depth ts).map (List.map toValue) := by
  induction ts with
  | nil => rfl
  | cons t rest ih =>
    obtain ⟨first, others⟩ := List.forall_mem_cons.1 each
    rw [Tree.buildItems, Tree.buildItems, first, ih others]
    cases t.build tolerant depth with
    | error e => rfl
    | ok d => cases Tree.buildItems tolerant depth rest <;> rfl

theorem buildEntries_strict {depth : Nat} {seen : Std.HashSet String} {ts : List (String × Tree)}
    (fresh : Value.FreshKeys seen (ts.map Prod.fst))
    (each : ∀ entry ∈ ts, entry.2.build strict depth = (entry.2.build tolerant depth).map toValue) :
    Tree.buildEntries strict depth seen ts =
      (Tree.buildEntries tolerant depth seen ts).map
        (List.map fun (key, d) => (key, d.toValue)) := by
  induction ts generalizing seen with
  | nil => rfl
  | cons entry rest ih =>
    obtain ⟨unseen, fresh⟩ := Value.freshKeys_cons_iff.1 fresh
    obtain ⟨first, others⟩ := List.forall_mem_cons.1 each
    rw [buildEntries_cons strict depth unseen, buildEntries_cons tolerant depth unseen, first,
      ih fresh others]
    cases entry.2.build tolerant depth with
    | error e => rfl
    | ok d => cases Tree.buildEntries tolerant depth (seen.insert entry.1) rest <;> rfl

/-- Without repeated keys and wide literals both ways come to the same, refusals included. -/
theorem build_strict_of_not_loose {t : Tree} (tight : ¬ t.Loose) (depth : Nat) :
    t.build strict depth = (t.build tolerant depth).map toValue := by
  induction t using Tree.induct generalizing depth with
  | null => rfl
  | bool b => rfl
  | string s => rfl
  | number l =>
    rw [Tree.build, Tree.build]
    cases number : l.number? with
    | none => rfl
    | some n => exact ofNumber_eq_toValue number fun wide => tight (Tree.loose_number_iff.2 wide)
  | array items ih =>
    cases depth with
    | zero => rfl
    | succ depth =>
      have each : ∀ t ∈ items, t.build strict depth = (t.build tolerant depth).map toValue := by
        intro t member
        exact ih t member (fun loose => tight (Tree.loose_array_iff.2 ⟨t, member, loose⟩)) depth
      rw [Tree.build, Tree.build, buildItems_strict each]
      cases Tree.buildItems tolerant depth items with
      | error e => rfl
      | ok ds =>
        change Except.ok (Value.array (ds.map toValue)) = .ok (toValue (.array ds))
        rw [toValue, Document.toItems_eq_map]
  | object entries ih =>
    cases depth with
    | zero => rfl
    | succ depth =>
      have each : ∀ entry ∈ entries,
          entry.2.build strict depth = (entry.2.build tolerant depth).map toValue := by
        intro entry member
        exact ih entry member
          (fun loose => tight (Tree.loose_object_iff.2 (.inr ⟨entry, member, loose⟩))) depth
      have distinct : (entries.map Prod.fst).Nodup := by
        by_contra repeated
        exact tight (Tree.loose_object_iff.2 (.inl repeated))
      rw [Tree.build, Tree.build, buildEntries_strict (Value.freshKeys_empty_iff.2 distinct) each]
      cases built : Tree.buildEntries tolerant depth ∅ entries with
      | error e => rfl
      | ok ds =>
        have keys : (ds.map Prod.fst).Nodup := by
          rw [(built_entries built).1]
          exact distinct
        change Except.ok (Value.map _) = .ok (toValue (Document.ofEntries ds))
        rw [Document.ofEntries_of_nodup keys, toValue, Document.toFields_eq_map]

/-- The strict builder refuses every other tree. -/
theorem not_loose_of_build {t : Tree} {depth : Nat} {v : Value}
    (built : t.build strict depth = .ok v) : ¬ t.Loose := by
  induction t using Tree.induct generalizing depth v with
  | null | bool _ | string _ =>
    rintro (⟨entries, within, -⟩ | ⟨l, within, -⟩) <;> cases within
  | number l =>
    rw [Tree.loose_number_iff]
    rintro ⟨integer, unsigned, wide, bound⟩
    have number := Literal.number?_natural_iff.2 ⟨integer, unsigned, rfl, bound⟩
    rw [Tree.build, number] at built
    change ofNumber (.natural l.magnitude) = _ at built
    have large : ¬ l.magnitude < 0x8000000000000000 := Nat.not_lt.2 wide
    rw [ofNumber, if_neg large] at built
    cases built
  | array items ih =>
    cases depth with
    | zero => cases built
    | succ depth =>
      rw [Tree.build, bind_eq_ok_iff] at built
      obtain ⟨vs, listed, -⟩ := built
      rw [Tree.loose_array_iff]
      rintro ⟨t, member, loose⟩
      obtain ⟨v, inner⟩ := built_items listed t member
      exact ih t member inner loose
  | object entries ih =>
    cases depth with
    | zero => cases built
    | succ depth =>
      rw [Tree.build, bind_eq_ok_iff] at built
      obtain ⟨vs, listed, -⟩ := built
      rw [Tree.loose_object_iff]
      rintro (repeated | ⟨entry, member, loose⟩)
      · exact repeated (Value.freshKeys_empty_iff.1 (fresh_of_built rfl listed))
      · obtain ⟨v, inner⟩ := (built_entries listed).2 entry member
        exact ih entry member inner loose

/-! ## Both ways on one text -/

/-- A text that is read as a value at once is read as a document that converts to this value, with the
kinds of its numbers and the order of its entries. One that is read as a document only has a tree in
which a key is repeated or a literal is wide, and every text with such a tree is refused as a value. A
text that has no tree is refused both ways. -/
theorem routes_agree (text : String) :
    (∀ v, Value.ofJson text = .ok v → ∃ d, Document.ofText text = .ok d ∧ d.toValue = v) ∧
      (∀ d e, Document.ofText text = .ok d → Value.ofJson text = .error e →
        (∃ t, Item text.toList t) ∧ ∀ t, Item text.toList t → t.RepeatsKey ∨ t.HasWide) ∧
      (∀ t, Item text.toList t → t.RepeatsKey ∨ t.HasWide → ∃ e, Value.ofJson text = .error e) ∧
      ((∀ t, ¬ Item text.toList t) →
        (∃ e, Value.ofJson text = .error e) ∧ ∃ e, Document.ofText text = .error e) := by
  have refused {α : Type} {b : Builder α} (impossible : ∀ a, read b text.toList ≠ .ok a) :
      ∃ e, read b text.toList = .error e := by
    cases read : read b text.toList with
    | error e => exact ⟨e, rfl⟩
    | ok a => exact absurd read (impossible a)
  refine ⟨fun v accepted => ?_, fun d e generic rejected => ?_, fun t item loose => ?_,
    fun treeless => ⟨?_, ?_⟩⟩
  · obtain ⟨t, item, built⟩ := item_of_read accepted
    rw [build_strict_of_not_loose (not_loose_of_build built)] at built
    rw [Document.ofText, read_eq_build tolerant item]
    cases document : t.build tolerant depthLimit with
    | error e =>
      rw [document] at built
      cases built
    | ok d =>
      rw [document] at built
      injection built with same
      exact ⟨d, rfl, same⟩
  · obtain ⟨t, item, -⟩ := item_of_read generic
    refine ⟨⟨t, item⟩, fun t item => ?_⟩
    by_contra tight
    rw [Document.ofText, read_eq_build tolerant item] at generic
    rw [Value.ofJson, read_eq_build strict item, build_strict_of_not_loose tight, generic] at rejected
    cases rejected
  · refine refused fun v accepted => ?_
    rw [read_eq_build strict item] at accepted
    exact not_loose_of_build accepted loose
  · refine refused fun v accepted => ?_
    obtain ⟨t, item, -⟩ := item_of_read accepted
    exact treeless t item
  · refine refused fun d accepted => ?_
    obtain ⟨t, item, -⟩ := item_of_read accepted
    exact treeless t item

/-- An integer that is read both ways, one that is read as a document only, and a key that is the same
without its escape. -/
theorem routes_agree_edges :
    (∃ d, Document.ofText "[-9223372036854775808]" = .ok d ∧
        d.toValue = .array [.int Int64.minValue]) ∧
      ((∃ t, Item "[9223372036854775808]".toList t) ∧
        ∀ t, Item "[9223372036854775808]".toList t → t.RepeatsKey ∨ t.HasWide) ∧
      ∃ e, Value.ofJson "\x7b\"a\":1,\"\\u0061\":1\x7d" = .error e := by
  refine ⟨(routes_agree _).1 _ rfl,
    (routes_agree _).2.1 (.array [.number (.natural (2 ^ 63))]) (.integerRange (2 ^ 63)) rfl rfl, ?_⟩
  have digits : Literal.Whole ['1'] := ⟨⟨nofun, by simp⟩, nofun⟩
  have one : Item ['1'] (.number ⟨false, ['1'], [], none⟩) :=
    (Written.number (.positive digits .none .none)).item
  have plain : Quoted.Spells ['a'] "a" :=
    ⟨[.char 'a'], .char (by decide) (by decide) (by decide) .nil, .char .nil⟩
  have escaped : Quoted.Spells ['\\', 'u', '0', '0', '6', '1'] "a" :=
    ⟨[.unit 0x61], .unit rfl .nil, .unit rfl rfl .nil⟩
  have first : Entry ['"', 'a', '"', ':', '1'] _ := .entry blank_nil plain blank_nil one
  have second : Entry ['"', '\\', 'u', '0', '0', '6', '1', '"', ':', '1'] _ :=
    .entry blank_nil escaped blank_nil one
  have whole := (Written.object (.more first (.last second))).item
  exact (routes_agree "\x7b\"a\":1,\"\\u0061\":1\x7d").2.2.1 _ whole
    (.inl ⟨_, .self, by simp⟩)

end Patchbay.Json
