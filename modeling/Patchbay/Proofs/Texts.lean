import Mathlib.Data.List.Induction
import Patchbay.Text

/-!
# Splits and numerals

Where a text is taken apart at the first or the last place of a separator, and which texts are read
as a number. Each reader is described by an `iff`: it finds what there is, and nothing else.
-/

namespace Patchbay.Text

variable {separator text before after ds : List Char} {c : Char} {limit n : Nat}

/-! ## Splits -/

/-- A text before and after the first place at which the separator stands in it. -/
structure FirstSplit (separator text before after : List Char) : Prop where
  whole : text = before ++ separator ++ after
  first : ∀ b a, text = b ++ separator ++ a → before.length ≤ b.length

/-- A text before and after the last place at which the separator stands in it. -/
structure LastSplit (separator text before after : List Char) : Prop where
  whole : text = before ++ separator ++ after
  last : ∀ b a, text = b ++ separator ++ a → b.length ≤ before.length

theorem FirstSplit.unique (split : FirstSplit separator text before after) {b a : List Char}
    (other : FirstSplit separator text b a) : before = b ∧ after = a := by
  have size : before.length = b.length :=
    Nat.le_antisymm (split.first b a other.whole) (other.first before after split.whole)
  have same := split.whole.symm.trans other.whole
  rw [List.append_assoc, List.append_assoc] at same
  obtain ⟨front, behind⟩ := List.append_inj same size
  exact ⟨front, List.append_cancel_left behind⟩

/-- A separator that stands in front is the first. -/
theorem firstSplit_of_prefix (whole : text = separator ++ after) :
    FirstSplit separator text [] after :=
  ⟨whole, fun _ _ _ => Nat.zero_le _⟩

/-- So is one that begins with a character which does not come before. -/
theorem firstSplit_of_not_mem (free : c ∉ before) (separator after : List Char) :
    FirstSplit (c :: separator) (before ++ c :: separator ++ after) before after := by
  refine ⟨rfl, fun b a split => Nat.le_of_not_lt fun shorter => free ?_⟩
  rw [List.append_assoc, List.append_assoc] at split
  obtain ⟨between, rfl, rest⟩ | ⟨between, rfl, -⟩ := List.append_eq_append_iff.1 split
  · rw [List.length_append] at shorter
    omega
  · cases between with
    | nil => simp at shorter
    | cons d others => simp_all

theorem firstSplit_cons_iff (behind : ¬ separator <+: c :: text) :
    FirstSplit separator (c :: text) before after ↔
      ∃ front, before = c :: front ∧ FirstSplit separator text front after := by
  have starts {b a : List Char} (whole : c :: text = b ++ separator ++ a) :
      ∃ front, b = c :: front ∧ text = front ++ separator ++ a := by
    cases b with
    | nil => exact absurd ⟨a, whole.symm⟩ behind
    | cons d front =>
      obtain ⟨rfl, rest⟩ := List.cons.inj whole
      exact ⟨front, rfl, rest⟩
  constructor
  · rintro ⟨whole, first⟩
    obtain ⟨front, rfl, rest⟩ := starts whole
    refine ⟨front, rfl, rest, fun b a split => ?_⟩
    exact Nat.le_of_succ_le_succ (first (c :: b) a (congrArg (c :: ·) split))
  · rintro ⟨front, rfl, whole, first⟩
    refine ⟨congrArg (c :: ·) whole, fun b a split => ?_⟩
    obtain ⟨inside, rfl, rest⟩ := starts split
    exact Nat.succ_le_succ (first inside a rest)

/-- The reader keeps what it has passed in reverse. -/
theorem splitFirst_eq_some_iff (some : separator ≠ []) {passed b a : List Char} :
    splitFirst separator passed text = .some (b, a) ↔
      ∃ before, b = passed.reverse ++ before ∧ FirstSplit separator text before a := by
  induction text generalizing passed with
  | nil =>
    constructor
    · nofun
    · rintro ⟨before, -, whole, -⟩
      have empty := List.append_eq_nil_iff.1 (List.append_eq_nil_iff.1 whole.symm).1
      exact absurd empty.2 some
  | cons c text ih =>
    rw [splitFirst]
    split
    · next found =>
      obtain ⟨rest, whole⟩ := List.isPrefixOf_iff_prefix.1 found
      have here := firstSplit_of_prefix whole.symm
      rw [← whole, List.drop_left, whole, Option.some.injEq, Prod.mk.injEq]
      constructor
      · rintro ⟨rfl, rfl⟩
        exact ⟨[], (List.append_nil _).symm, here⟩
      · rintro ⟨before, rfl, split⟩
        obtain ⟨rfl, rfl⟩ := split.unique here
        exact ⟨(List.append_nil _).symm, rfl⟩
    · next missing =>
      rw [ih]
      simp only [firstSplit_cons_iff (mt List.isPrefixOf_iff_prefix.2 missing)]
      constructor
      · rintro ⟨before, rfl, split⟩
        exact ⟨c :: before, by simp, before, rfl, split⟩
      · rintro ⟨_, rfl, before, rfl, split⟩
        exact ⟨before, by simp, split⟩

/-- The last place is the first one from behind. -/
theorem lastSplit_iff_reverse :
    LastSplit [c] text before after ↔
      FirstSplit [c] text.reverse after.reverse before.reverse := by
  have turned {t b a : List Char} (whole : t = b ++ [c] ++ a) :
      t.reverse = a.reverse ++ [c] ++ b.reverse := by
    simp [whole]
  have longest {b a : List Char} (whole : text = b ++ [c] ++ a) :
      text.length = b.length + 1 + a.length := by
    simp [whole, Nat.add_assoc, Nat.add_comm 1]
  constructor
  · rintro ⟨whole, last⟩
    refine ⟨turned whole, fun b a split => ?_⟩
    have back : text = a.reverse ++ [c] ++ b.reverse := by simpa using turned split
    have inside := last _ _ back
    have size := longest whole
    have other := longest back
    simp only [List.length_reverse] at inside other ⊢
    omega
  · rintro ⟨whole, first⟩
    have straight : text = before ++ [c] ++ after := by simpa using turned whole
    refine ⟨straight, fun b a split => ?_⟩
    have inside := first _ _ (turned split)
    have size := longest straight
    have other := longest split
    simp only [List.length_reverse] at inside
    omega

theorem splitLast_eq_some_iff :
    splitLast c text = some (before, after) ↔ LastSplit [c] text before after := by
  rw [splitLast, lastSplit_iff_reverse, Option.map_eq_some_iff]
  constructor
  · rintro ⟨⟨a, b⟩, found, same⟩
    obtain ⟨rfl, rfl⟩ := Prod.mk.inj same
    obtain ⟨front, rfl, split⟩ := (splitFirst_eq_some_iff (by simp)).1 found
    simpa using split
  · intro split
    exact ⟨(after.reverse, before.reverse),
      (splitFirst_eq_some_iff (by simp)).2 ⟨after.reverse, rfl, split⟩, by simp⟩

/-! ## Numerals -/

/-- A text that spells a number in decimal digits, with any zeros and at most a plus sign in front.
-/
inductive Numeral (n : Nat) : List Char → Prop where
  | plain (zeros : Nat) : Numeral n (List.replicate zeros '0' ++ Nat.toDigits 10 n)
  | plus (zeros : Nat) : Numeral n ('+' :: (List.replicate zeros '0' ++ Nat.toDigits 10 n))

theorem exists_digit (digit : c.isDigit) : ∃ d, d < 10 ∧ c = Nat.digitChar d := by
  obtain ⟨lower, upper⟩ := Char.isDigit_iff_toNat.1 digit
  change 48 ≤ c.toNat at lower
  change c.toNat ≤ 57 at upper
  refine ⟨c.toNat - 48, by omega, Char.toNat_inj.1 ?_⟩
  rw [Nat.toNat_digitChar_of_lt_ten (by omega)]
  omega

/-- Digits are the digits of a number with some zeros in front. -/
theorem exists_toDigits (some : ds ≠ []) (digits : ∀ c ∈ ds, c.isDigit) :
    ∃ zeros n, ds = List.replicate zeros '0' ++ Nat.toDigits 10 n := by
  induction ds using List.reverseRecOn with
  | nil => exact absurd rfl some
  | append_singleton front c ih =>
    obtain ⟨d, small, rfl⟩ := exists_digit (digits c (by simp))
    have one : Nat.toDigits 10 d = [d.digitChar] := Nat.toDigits_of_lt_base small
    rcases front with _ | ⟨first, rest⟩
    · exact ⟨0, d, by simp [one]⟩
    · obtain ⟨zeros, n, same⟩ := ih (by simp) fun c member =>
        digits c (List.mem_append_left _ member)
      rw [same]
      rcases Nat.eq_zero_or_pos n with rfl | positive
      · refine ⟨zeros + 1, d, ?_⟩
        rw [Nat.toDigits_zero, one, List.replicate_succ']
      · refine ⟨zeros, 10 * n + d, ?_⟩
        rw [← Nat.toDigits_append_toDigits (by decide) positive small, one, List.append_assoc]

/-- The number of a digit string. -/
theorem digits_value (ds : List Char) :
    ds.foldl (fun n c => n * 10 + (c.toNat - '0'.toNat)) 0 = Nat.ofDigitChars 10 ds 0 := by
  simp only [Nat.ofDigitChars_eq_foldl, Nat.mul_comm]

theorem value_toDigits (zeros n : Nat) :
    Nat.ofDigitChars 10 (List.replicate zeros '0' ++ Nat.toDigits 10 n) 0 = n := by
  rw [Nat.ofDigitChars_append, Nat.ofDigitChars_replicate_zero, Nat.mul_zero,
    Nat.ofDigitChars_ten_toDigits]

theorem isDigit_of_mem {zeros : Nat}
    (member : c ∈ List.replicate zeros '0' ++ Nat.toDigits 10 n) : c.isDigit := by
  rcases List.mem_append.1 member with zero | digit
  · rw [List.eq_of_mem_replicate zero]
    rfl
  · exact Nat.isDigit_of_mem_toDigits (by decide) (by decide) digit

/-- What the reader says to the text behind the sign. -/
def digits? (limit : Nat) (ds : List Char) : Option Nat :=
  if ds.isEmpty || !ds.all Char.isDigit then none
  else
    let n := ds.foldl (fun n c => n * 10 + (c.toNat - '0'.toNat)) 0
    if n ≤ limit then some n else none

theorem digits?_eq_some_iff :
    digits? limit ds = some n ↔
      (∃ zeros, ds = List.replicate zeros '0' ++ Nat.toDigits 10 n) ∧ n ≤ limit := by
  have fits (zeros : Nat) (small : n ≤ limit) :
      digits? limit (List.replicate zeros '0' ++ Nat.toDigits 10 n) = some n := by
    have nonempty : (List.replicate zeros '0' ++ Nat.toDigits 10 n).isEmpty = false := by
      simp [Nat.toDigits_ne_nil]
    have digits : (List.replicate zeros '0' ++ Nat.toDigits 10 n).all Char.isDigit = true :=
      List.all_eq_true.2 fun c member => isDigit_of_mem member
    simp only [digits?, nonempty, digits, digits_value, value_toDigits, if_pos small]
    rfl
  constructor
  · intro read
    unfold digits? at read
    split at read
    · cases read
    · next proper =>
      simp only [Bool.or_eq_true, Bool.not_eq_true', not_or, List.isEmpty_iff,
        Bool.not_eq_false, List.all_eq_true] at proper
      obtain ⟨zeros, m, rfl⟩ := exists_toDigits proper.1 proper.2
      rw [digits_value, value_toDigits] at read
      dsimp only at read
      split at read
      · next small =>
        cases read
        exact ⟨⟨zeros, rfl⟩, small⟩
      · cases read
  · rintro ⟨⟨zeros, rfl⟩, small⟩
    exact fits zeros small

theorem unsigned?_plus (limit : Nat) (ds : List Char) :
    unsigned? limit ('+' :: ds) = digits? limit ds := rfl

theorem unsigned?_plain (limit : Nat) (unsigned : text.head? ≠ some '+') :
    unsigned? limit text = digits? limit text := by
  unfold unsigned?
  split
  · exact absurd rfl unsigned
  · rfl

theorem head?_ne_plus (zeros n : Nat) :
    (List.replicate zeros '0' ++ Nat.toDigits 10 n).head? ≠ some '+' := by
  intro plus
  have digit := isDigit_of_mem (List.mem_of_head? plus)
  exact absurd digit (by decide)

/-- The texts that are read as a number are those that spell it, as far as it is not too large. -/
theorem unsigned?_eq_some_iff : unsigned? limit text = some n ↔ Numeral n text ∧ n ≤ limit := by
  constructor
  · intro read
    by_cases plus : text.head? = some '+'
    · obtain ⟨ds, rfl⟩ : ∃ ds, text = '+' :: ds := by
        cases text with
        | nil => cases plus
        | cons c ds => exact ⟨ds, congrArg (· :: ds) (Option.some.inj plus)⟩
      rw [unsigned?_plus, digits?_eq_some_iff] at read
      obtain ⟨⟨zeros, rfl⟩, small⟩ := read
      exact ⟨.plus zeros, small⟩
    · rw [unsigned?_plain limit plus, digits?_eq_some_iff] at read
      obtain ⟨⟨zeros, rfl⟩, small⟩ := read
      exact ⟨.plain zeros, small⟩
  · rintro ⟨spelled, small⟩
    cases spelled with
    | plain zeros =>
      rw [unsigned?_plain limit (head?_ne_plus zeros n), digits?_eq_some_iff]
      exact ⟨⟨zeros, rfl⟩, small⟩
    | plus zeros =>
      rw [unsigned?_plus, digits?_eq_some_iff]
      exact ⟨⟨zeros, rfl⟩, small⟩

end Patchbay.Text
