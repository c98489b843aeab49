import Patchbay.Json.Quoted

/-!
# Quoted texts

The grammar of a text in quotes: how characters and escapes stand for the characters of the text. A
text is read from what stands for it and from nothing else, and the writer's escapes stand for the text
that was written.
-/

namespace Patchbay.Json.Quoted

variable {front rest text : List Char} {ps : List Piece} {cs : List Char}

/-! ## The grammar -/

/-- These characters are these pieces. A quote ends the text, a backslash begins an escape, and control
characters have to be escaped. -/
inductive Pieces : List Char → List Piece → Prop where
  | nil : Pieces [] []
  | char {c : Char} {front : List Char} {ps : List Piece} (visible : 0x20 ≤ c.toNat)
      (quote : c ≠ '"') (backslash : c ≠ '\\') (others : Pieces front ps) :
      Pieces (c :: front) (.char c :: ps)
  | short {e c : Char} {front : List Char} {ps : List Piece} (known : short? e = some c)
      (others : Pieces front ps) : Pieces ('\\' :: e :: front) (.char c :: ps)
  | unit {a b c d : Char} {n : Nat} {front : List Char} {ps : List Piece}
      (digits : hexUnit? a b c d = some n) (others : Pieces front ps) :
      Pieces ('\\' :: 'u' :: a :: b :: c :: d :: front) (.unit n :: ps)

/-- These pieces are these characters: two units that form a surrogate pair are one. -/
inductive Joins : List Piece → List Char → Prop where
  | nil : Joins [] []
  | char {c : Char} {ps : List Piece} {cs : List Char} (others : Joins ps cs) :
      Joins (.char c :: ps) (c :: cs)
  | unit {n : Nat} {ps : List Piece} {cs : List Char} (trail : isTrail n = false)
      (lead : isLead n = false) (others : Joins ps cs) :
      Joins (.unit n :: ps) (Char.ofNat n :: cs)
  | pair {n m : Nat} {ps : List Piece} {cs : List Char} (lead : isLead n) (trail : isTrail m)
      (others : Joins ps cs) :
      Joins (.unit n :: .unit m :: ps)
        (Char.ofNat (0x10000 + (n - 0xD800) * 0x400 + (m - 0xDC00)) :: cs)

/-- Between quotes, these characters stand for this text. -/
def Spells (front : List Char) (s : String) : Prop := ∃ ps, Pieces front ps ∧ Joins ps s.toList

/-! ## Reading -/

theorem scan_append (pieces : Pieces front ps) (found : List Piece) :
    scan found (front ++ '"' :: rest) = some (found.reverse ++ ps, rest) := by
  induction pieces generalizing found with
  | nil => simp [scan]
  | @char c front ps visible quote backslash others ih =>
    have plain : ¬ (c.toNat < 0x20 ∨ c = '\\') := by
      rintro (control | same)
      · exact absurd visible (Nat.not_le_of_lt control)
      · exact backslash same
    rw [List.cons_append, scan, if_neg plain, ih]
    · simp
    · exact quote
    · exact fun _ _ _ _ _ same => absurd same backslash
    · exact fun _ _ same => absurd same backslash
  | @short e c front ps known others ih =>
    rw [List.cons_append, List.cons_append, scan, known]
    · dsimp only
      rw [ih]
      simp
    · -- no short escape begins as a unit does
      rintro _ _ _ _ _ rfl
      cases known
  | @unit a b c d n front ps digits others ih =>
    simp only [List.cons_append, scan, digits]
    rw [ih]
    simp

theorem pieces_of_scan {found all : List Piece} (scanned : scan found text = some (all, rest)) :
    ∃ front ps, Pieces front ps ∧ text = front ++ '"' :: rest ∧ all = found.reverse ++ ps := by
  fun_induction scan found text with
  | case1 | case4 | case6 | case7 => cases scanned
  | case2 found behind =>
    cases scanned
    exact ⟨[], [], .nil, rfl, by simp⟩
  | case3 found a b c d behind n digits ih =>
    obtain ⟨front, ps, pieces, rfl, rfl⟩ := ih scanned
    exact ⟨_, _, .unit digits pieces, rfl, by simp⟩
  | case5 found e behind long c known ih =>
    obtain ⟨front, ps, pieces, rfl, rfl⟩ := ih scanned
    exact ⟨_, _, .short known pieces, rfl, by simp⟩
  | case8 found c behind quote long short plain ih =>
    obtain ⟨front, ps, pieces, rfl, rfl⟩ := ih scanned
    obtain ⟨visible, backslash⟩ := not_or.1 plain
    exact ⟨_, _, .char (Nat.le_of_not_lt visible) quote backslash pieces, rfl, by simp⟩

theorem join_of_joins (joined : Joins ps cs) (before : String) :
    join before ps = some (before ++ String.ofList cs) := by
  induction joined generalizing before with
  | nil => simp [join]
  | char others ih =>
    rw [join, ih]
    simp [String.ext_iff]
  | unit trail lead others ih =>
    rw [join.eq_def]
    dsimp only
    rw [if_neg (by simp [trail]), if_neg (by simp [lead]), ih]
    simp [String.ext_iff]
  | @pair n m ps cs lead trail others ih =>
    have apart : isTrail n = false := by
      simp only [isLead, isTrail, Bool.and_eq_true, decide_eq_true_eq, Bool.and_eq_false_iff,
        decide_eq_false_iff_not] at lead ⊢
      omega
    rw [join, if_neg (by simp [apart]), if_pos lead, if_pos trail, ih]
    simp [String.ext_iff]

theorem joins_of_join {before s : String} (joined : join before ps = some s) :
    ∃ cs, Joins ps cs ∧ s = before ++ String.ofList cs := by
  fun_induction join before ps with
  | case1 before =>
    cases joined
    exact ⟨[], .nil, by simp⟩
  | case2 before c ps ih =>
    obtain ⟨cs, joins, rfl⟩ := ih joined
    exact ⟨c :: cs, .char joins, by simp [String.ext_iff]⟩
  | case3 | case5 | case6 => cases joined
  | case4 before n _ lead m ps trail ih =>
    obtain ⟨cs, joins, rfl⟩ := ih joined
    exact ⟨_, .pair lead trail joins, by simp [String.ext_iff]⟩
  | case7 before n ps trail lead ih =>
    obtain ⟨cs, joins, rfl⟩ := ih joined
    exact ⟨_, .unit (by simpa using trail) (by simpa using lead) joins, by simp [String.ext_iff]⟩

/-- A text is read from what stands for it, up to the quote behind it, and from nothing else. -/
theorem read_eq_some_iff {s : String} :
    read text = some (s, rest) ↔ ∃ front, Spells front s ∧ text = front ++ '"' :: rest := by
  simp only [read, Option.bind_eq_bind, Option.bind_eq_some_iff]
  constructor
  · rintro ⟨⟨all, behind⟩, scanned, s, joined, same⟩
    cases same
    obtain ⟨front, ps, pieces, rfl, found⟩ := pieces_of_scan scanned
    obtain rfl : all = ps := by simpa using found
    obtain ⟨cs, joins, rfl⟩ := joins_of_join joined
    exact ⟨front, ⟨all, pieces, by simpa using joins⟩, rfl⟩
  · rintro ⟨front, ⟨ps, pieces, joins⟩, rfl⟩
    refine ⟨_, scan_append pieces [], s, ?_, rfl⟩
    simpa using join_of_joins joins ""

theorem read_append {s : String} (spelled : Spells front s) (rest : List Char) :
    read (front ++ '"' :: rest) = some (s, rest) :=
  read_eq_some_iff.2 ⟨front, spelled, rfl⟩

/-! ## Writing -/

/-- How a character stands in a literal. -/
def escape (c : Char) : List Char := (putChar "" c).toList

theorem putChar_toList (out : String) (c : Char) :
    (putChar out c).toList = out.toList ++ escape c := by
  unfold escape putChar
  split <;> try simp
  split <;> simp

theorem put_toList (out s : String) :
    (put out s).toList = out.toList ++ '"' :: (s.toList.flatMap escape ++ ['"']) := by
  have each (cs : List Char) (out : String) :
      (cs.foldl putChar out).toList = out.toList ++ cs.flatMap escape := by
    induction cs generalizing out with
    | nil => simp
    | cons c cs ih =>
      rw [List.foldl_cons, ih, putChar_toList, List.flatMap_cons, List.append_assoc]
  rw [put, String.toList_push, each, String.toList_push]
  simp

theorem hexDigit?_digitChar {n : Nat} (small : n < 16) : hexDigit? (Nat.digitChar n) = some n := by
  have all : ∀ n < 16, hexDigit? (Nat.digitChar n) = some n := by decide
  exact all n small

/-- A character is written as an escape of one letter, as a unit when it is a control character, or as
it is. -/
theorem escape_cases (c : Char) :
    (∃ e, escape c = ['\\', e] ∧ short? e = some c) ∨
      c.toNat < 0x20 ∧ escape c =
        ['\\', 'u', '0', '0', Nat.digitChar (c.toNat / 16), Nat.digitChar (c.toNat % 16)] ∨
      0x20 ≤ c.toNat ∧ c ≠ '"' ∧ c ≠ '\\' ∧ escape c = [c] := by
  unfold escape putChar
  split
  · exact .inl ⟨'"', rfl, rfl⟩
  · exact .inl ⟨'\\', rfl, rfl⟩
  · exact .inl ⟨'b', rfl, rfl⟩
  · exact .inl ⟨'f', rfl, rfl⟩
  · exact .inl ⟨'n', rfl, rfl⟩
  · exact .inl ⟨'r', rfl, rfl⟩
  · exact .inl ⟨'t', rfl, rfl⟩
  · next quote backslash _ _ _ _ _ =>
    split
    · next control => exact .inr (.inl ⟨control, by simp⟩)
    · next visible => exact .inr (.inr ⟨Nat.le_of_not_lt visible, quote, backslash, by simp⟩)

/-- The unit of a control character is its number. -/
theorem hexUnit?_control {n : Nat} (control : n < 0x20) :
    hexUnit? '0' '0' (Nat.digitChar (n / 16)) (Nat.digitChar (n % 16)) = some n := by
  have high := hexDigit?_digitChar (show n / 16 < 16 by omega)
  have low := hexDigit?_digitChar (show n % 16 < 16 by omega)
  have zero : hexDigit? '0' = some 0 := rfl
  simp only [hexUnit?, zero, high, low, Option.bind_eq_bind, Option.bind_some, Option.some.injEq]
  omega

/-- What a character is written as is one piece of a literal, and that piece is the character. -/
theorem escape_piece (c : Char) :
    ∃ piece, (∀ front ps, Pieces front ps → Pieces (escape c ++ front) (piece :: ps)) ∧
      ∀ ps cs, Joins ps cs → Joins (piece :: ps) (c :: cs) := by
  rcases escape_cases c with ⟨e, written, known⟩ | ⟨control, written⟩ |
    ⟨visible, quote, backslash, written⟩
  · refine ⟨.char c, fun front ps others => ?_, fun _ _ => .char⟩
    rw [written]
    exact .short known others
  · refine ⟨.unit c.toNat, fun front ps others => ?_, fun ps cs others => ?_⟩
    · rw [written]
      exact .unit (hexUnit?_control control) others
    · have trail : isTrail c.toNat = false := by simp [isTrail]; omega
      have lead : isLead c.toNat = false := by simp [isLead]; omega
      have joined := Joins.unit trail lead others
      rwa [Char.ofNat_toNat] at joined
  · refine ⟨.char c, fun front ps others => ?_, fun _ _ => .char⟩
    rw [written]
    exact .char visible quote backslash others

/-- A text is read back from what is written for it. -/
theorem spells_escaped (s : String) : Spells (s.toList.flatMap escape) s := by
  unfold Spells
  induction s.toList with
  | nil => exact ⟨[], .nil, .nil⟩
  | cons c cs ih =>
    obtain ⟨ps, pieces, joins⟩ := ih
    obtain ⟨piece, stands, same⟩ := escape_piece c
    exact ⟨piece :: ps, stands _ _ pieces, same _ _ joins⟩

end Patchbay.Json.Quoted
