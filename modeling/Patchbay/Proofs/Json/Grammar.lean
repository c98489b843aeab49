import Patchbay.Json.Reader
import Patchbay.Proofs.Results
import Patchbay.Proofs.Json.Literals
import Patchbay.Proofs.Json.Quoting

/-!
# What is a JSON text

The grammar of JSON, and the tree that a text is: its literals as they are spelled, and all entries of
its objects in order, repeated ones too. The reader follows the grammar. Reading a text that has a tree
comes to building a document from that tree, whatever the document is made of, and no other text is
read.
-/

namespace Patchbay.Json

/-- What a JSON text says. -/
inductive Tree where
  | null
  | bool (b : Bool)
  | number (l : Literal)
  | string (s : String)
  | array (items : List Tree)
  | object (entries : List (String × Tree))

variable {α : Type} {text front rest part body before after : List Char} {t : Tree}

/-! ## The grammar -/

def Blank (cs : List Char) : Prop := ∀ c ∈ cs, isBlank c

theorem blank_nil : Blank [] := nofun

/-- At least one thing of a form, with commas between them and a bracket behind the last one. -/
inductive Delimited {α : Type} (Form : List Char → α → Prop) (close : Char) :
    List Char → List α → Prop where
  | last {part : List Char} {a : α} (form : Form part a) :
      Delimited Form close (part ++ [close]) [a]
  | more {part body : List Char} {a : α} {as : List α} (form : Form part a)
      (others : Delimited Form close body as) :
      Delimited Form close (part ++ ',' :: body) (a :: as)

mutual

/-- These characters are a JSON value. -/
inductive Written : List Char → Tree → Prop where
  | null : Written ['n', 'u', 'l', 'l'] .null
  | bool (b : Bool) :
      Written (if b then ['t', 'r', 'u', 'e'] else ['f', 'a', 'l', 's', 'e']) (.bool b)
  | number {front : List Char} {l : Literal} (spelled : Literal.Spells front l) :
      Written front (.number l)
  | string {front : List Char} {s : String} (spelled : Quoted.Spells front s) :
      Written ('"' :: (front ++ ['"'])) (.string s)
  | emptyArray {inside : List Char} (blank : Blank inside) :
      Written ('[' :: (inside ++ [']'])) (.array [])
  | array {body : List Char} {items : List Tree} (each : Delimited Item ']' body items) :
      Written ('[' :: body) (.array items)
  | emptyObject {inside : List Char} (blank : Blank inside) :
      Written ('\x7b' :: (inside ++ ['\x7d'])) (.object [])
  | object {body : List Char} {entries : List (String × Tree)}
      (each : Delimited Entry '\x7d' body entries) : Written ('\x7b' :: body) (.object entries)

/-- A value with blanks around it. -/
inductive Item : List Char → Tree → Prop where
  | item {before front after : List Char} {t : Tree} (blank : Blank before)
      (written : Written front t) (trailing : Blank after) : Item (before ++ front ++ after) t

/-- A key in quotes, a colon and a value, with blanks around each. -/
inductive Entry : List Char → String × Tree → Prop where
  | entry {before front after part : List Char} {key : String} {t : Tree} (blank : Blank before)
      (spelled : Quoted.Spells front key) (trailing : Blank after) (item : Item part t) :
      Entry (before ++ '"' :: (front ++ '"' :: (after ++ ':' :: part))) (key, t)

end

/-! ## What a builder makes of a tree -/

mutual

/-- The document of a tree in which at most `depth` containers nest. -/
def Tree.build (b : Builder α) : (depth : Nat) → Tree → Except Defect α
  | _, .null => .ok b.null
  | _, .bool x => .ok (b.bool x)
  | _, .number l => orSyntactic l.number? >>= b.number
  | _, .string s => .ok (b.string s)
  | 0, .array _ | 0, .object _ => .error .syntactic
  | depth + 1, .array items => do
    let as ← buildItems b depth items
    .ok (b.array as)
  | depth + 1, .object entries => do
    let as ← buildEntries b depth ∅ entries
    .ok (b.object as)

def Tree.buildItems (b : Builder α) (depth : Nat) : List Tree → Except Defect (List α)
  | [] => .ok []
  | t :: rest => do
    let a ← t.build b depth
    let as ← buildItems b depth rest
    .ok (a :: as)

/-- Keys that were `seen` are repeated. -/
def Tree.buildEntries (b : Builder α) (depth : Nat) (seen : Std.HashSet String) :
    List (String × Tree) → Except Defect (List (String × α))
  | [] => .ok []
  | (key, t) :: rest =>
    if !b.repeats && seen.contains key then .error (.duplicateKey key)
    else do
      let a ← t.build b depth
      let as ← buildEntries b depth (seen.insert key) rest
      .ok ((key, a) :: as)

end

/-- An entry with a key that was not seen is built, whether or not keys may be repeated. -/
theorem buildEntries_cons (b : Builder α) (depth : Nat) {seen : Std.HashSet String} {key : String}
    (fresh : key ∉ seen) (t : Tree) (rest : List (String × Tree)) :
    Tree.buildEntries b depth seen ((key, t) :: rest) =
      (do
        let a ← t.build b depth
        let as ← Tree.buildEntries b depth (seen.insert key) rest
        .ok ((key, a) :: as)) := by
  rw [Tree.buildEntries, if_neg (by simpa using fun _ => fresh)]

/-! ## Blanks -/

theorem skipBlank_append (blank : Blank before) (rest : List Char) :
    skipBlank (before ++ rest) = skipBlank rest := by
  induction before with
  | nil => rfl
  | cons c before ih =>
    obtain ⟨first, others⟩ := List.forall_mem_cons.1 blank
    rw [List.cons_append, skipBlank, if_pos first]
    exact ih others

theorem skipBlank_cons {c : Char} (visible : isBlank c = false) (rest : List Char) :
    skipBlank (c :: rest) = c :: rest := by
  rw [skipBlank, if_neg (by simp [visible])]

theorem blank_of_skipBlank (text : List Char) : ∃ before, Blank before ∧ text = before ++ skipBlank text := by
  induction text with
  | nil => exact ⟨[], blank_nil, rfl⟩
  | cons c text ih =>
    rw [skipBlank]
    split
    · next blank =>
      obtain ⟨before, blanks, same⟩ := ih
      exact ⟨c :: before, List.forall_mem_cons.2 ⟨blank, blanks⟩, congrArg (c :: ·) same⟩
    · exact ⟨[], blank_nil, rfl⟩

/-- No literal goes on behind a blank. -/
theorem stops_append (blank : Blank after) (stops : Literal.Stops rest) :
    Literal.Stops (after ++ rest) := by
  cases after with
  | nil => exact stops
  | cons c after =>
    have first : isBlank c := blank c List.mem_cons_self
    rw [List.cons_append, Literal.stops_cons]
    simp only [isBlank, Bool.or_eq_true, beq_iff_eq] at first
    rcases first with ((rfl | rfl) | rfl) | rfl <;> decide

/-! ## How a value begins -/

theorem ne_of_isDigit {c d : Char} (digit : c.isDigit) (other : d.isDigit = false) : c ≠ d := by
  rintro rfl
  rw [digit] at other
  cases other

theorem not_isBlank_of_isDigit {c : Char} (digit : c.isDigit) : isBlank c = false := by
  have apart (d : Char) (other : d.isDigit = false) : (c == d) = false := by
    simpa using ne_of_isDigit digit other
  rw [isBlank, apart ' ' rfl, apart '\t' rfl, apart '\n' rfl, apart '\r' rfl]
  rfl

/-- A value begins with a character that is neither a blank nor ends an array. -/
theorem Written.head (written : Written front t) :
    ∃ c others, front = c :: others ∧ isBlank c = false ∧ c ≠ ']' := by
  cases written with
  | null | string _ | emptyArray _ | array _ | emptyObject _ | object _ =>
    exact ⟨_, _, rfl, by decide, by decide⟩
  | bool b => cases b <;> exact ⟨_, _, rfl, by decide, by decide⟩
  | number spelled =>
    obtain ⟨c, others, rfl, ⟨rfl, -⟩ | ⟨digit, -⟩⟩ := spelled.head
    · exact ⟨_, _, rfl, by decide, by decide⟩
    · exact ⟨c, others, rfl, not_isBlank_of_isDigit digit, ne_of_isDigit digit rfl⟩

theorem Written.item (written : Written front t) : Item front t := by
  have item : Item ([] ++ front ++ []) t := .item blank_nil written blank_nil
  simpa using item

theorem skipBlank_written (blank : Blank before) (written : Written front t) (rest : List Char) :
    skipBlank (before ++ front ++ rest) = front ++ rest := by
  obtain ⟨c, others, rfl, visible, -⟩ := written.head
  rw [List.append_assoc, skipBlank_append blank, List.cons_append, skipBlank_cons visible]

/-! ## Reading what is written -/

/-- In front of what no literal goes on with, the reader makes of a written value what `make` makes of
its tree. -/
def Follows (read : Reader α) (make : Tree → Except Defect α) : Prop :=
  ∀ before front t rest, Blank before → Written front t → Literal.Stops rest →
    read (before ++ front ++ rest) = make t >>= fun a => .ok (a, rest)

theorem Follows.item {read : Reader α} {make : Tree → Except Defect α} (follows : Follows read make)
    (item : Item part t) : ∃ after, Blank after ∧ ∀ rest, Literal.Stops rest →
      read (part ++ rest) = make t >>= fun a => .ok (a, after ++ rest) := by
  obtain ⟨blank, written, trailing⟩ := item
  refine ⟨_, trailing, fun rest stops => ?_⟩
  rw [List.append_assoc]
  exact follows _ _ _ _ blank written (stops_append trailing stops)

theorem readItems_delimited {read : Reader α} {b : Builder α} {depth : Nat}
    (follows : Follows read (Tree.build b depth)) {items : List Tree}
    (each : Delimited Item ']' body items) (found : List α) (fuel : Nat)
    (enough : items.length ≤ fuel) (rest : List Char) :
    readItems read found fuel (body ++ rest) =
      Tree.buildItems b depth items >>= fun as => .ok (found.reverse ++ as, rest) := by
  induction each generalizing found fuel with
  | @last part t form =>
    obtain ⟨after, blank, reads⟩ := follows.item form
    obtain ⟨fuel, rfl⟩ := Nat.exists_eq_add_one.2 enough
    have bracket : Literal.Stops (']' :: rest) := Literal.stops_cons.2 (by decide)
    rw [readItems, List.append_assoc, List.singleton_append, reads _ bracket, Tree.buildItems,
      Tree.buildItems]
    cases t.build b depth with
    | error e => rfl
    | ok a =>
      simp only [ok_bind, skipBlank_append blank, skipBlank_cons (by decide : isBlank ']' = false)]
      simp
  | @more part body t items form others ih =>
    obtain ⟨after, blank, reads⟩ := follows.item form
    obtain ⟨fuel, rfl⟩ := Nat.exists_eq_add_one.2 (Nat.zero_lt_of_lt enough)
    have comma : Literal.Stops (',' :: (body ++ rest)) := Literal.stops_cons.2 (by decide)
    rw [readItems, List.append_assoc, List.cons_append, reads _ comma, Tree.buildItems]
    cases t.build b depth with
    | error e => rfl
    | ok a =>
      simp only [ok_bind, skipBlank_append blank, skipBlank_cons (by decide : isBlank ',' = false)]
      rw [ih (a :: found) fuel (Nat.le_of_succ_le_succ enough)]
      cases Tree.buildItems b depth items with
      | error e => rfl
      | ok as => simp

theorem readKey_append {key : String} (blank : Blank before) (spelled : Quoted.Spells front key)
    (rest : List Char) : readKey (before ++ '"' :: (front ++ '"' :: rest)) = .ok (key, rest) := by
  simp only [readKey, skipBlank_append blank, skipBlank_cons (by decide : isBlank '"' = false),
    Quoted.read_append spelled, orSyntactic]

theorem readEntries_delimited {read : Reader α} {b : Builder α} {depth : Nat}
    (follows : Follows read (Tree.build b depth)) {entries : List (String × Tree)}
    (each : Delimited Entry '\x7d' body entries) (seen : Std.HashSet String)
    (found : List (String × α)) (fuel : Nat) (enough : entries.length ≤ fuel) (rest : List Char) :
    readEntries b read seen found fuel (body ++ rest) =
      Tree.buildEntries b depth seen entries >>= fun as => .ok (found.reverse ++ as, rest) := by
  induction each generalizing seen found fuel with
  | @last part entry form =>
    obtain @⟨before, front, inner, part, key, t, blank, spelled, trailing, item⟩ := form
    obtain ⟨after, around, reads⟩ := follows.item item
    obtain ⟨fuel, rfl⟩ := Nat.exists_eq_add_one.2 enough
    have brace : Literal.Stops ('\x7d' :: rest) := Literal.stops_cons.2 (by decide)
    rw [readEntries, Tree.buildEntries, Tree.buildEntries]
    simp only [List.append_assoc, List.cons_append, List.nil_append,
      readKey_append blank spelled, ok_bind]
    split
    · rfl
    · simp only [skipBlank_append trailing, skipBlank_cons (by decide : isBlank ':' = false),
        reads _ brace]
      cases t.build b depth with
      | error e => rfl
      | ok a =>
        simp only [ok_bind, skipBlank_append around,
          skipBlank_cons (by decide : isBlank '\x7d' = false)]
        simp
  | @more part body entry entries form others ih =>
    obtain @⟨before, front, inner, part, key, t, blank, spelled, trailing, item⟩ := form
    obtain ⟨after, around, reads⟩ := follows.item item
    obtain ⟨fuel, rfl⟩ := Nat.exists_eq_add_one.2 (Nat.zero_lt_of_lt enough)
    have comma : Literal.Stops (',' :: (body ++ rest)) := Literal.stops_cons.2 (by decide)
    rw [readEntries, Tree.buildEntries]
    simp only [List.append_assoc, List.cons_append, readKey_append blank spelled, ok_bind]
    split
    · rfl
    · simp only [skipBlank_append trailing, skipBlank_cons (by decide : isBlank ':' = false),
        reads _ comma]
      cases t.build b depth with
      | error e => rfl
      | ok a =>
        simp only [ok_bind, skipBlank_append around, skipBlank_cons (by decide : isBlank ',' = false)]
        rw [ih (seen.insert key) ((key, a) :: found) fuel (Nat.le_of_succ_le_succ enough)]
        cases Tree.buildEntries b depth (seen.insert key) entries with
        | error e => rfl
        | ok as => simp

/-- Every item has a character, be it the comma or the bracket behind it. -/
theorem Delimited.length_le {β : Type} {Form : List Char → β → Prop} {close : Char} {items : List β}
    (each : Delimited Form close body items) : items.length ≤ body.length := by
  induction each with
  | last form => simp
  | more form others ih =>
    simp only [List.length_cons, List.length_append]
    omega

theorem Delimited.head {β : Type} {Form : List Char → β → Prop} {close : Char} {items : List β}
    (each : Delimited Form close body items) :
    ∃ part a behind, Form part a ∧ body = part ++ behind := by
  cases each with
  | last form => exact ⟨_, _, _, form, rfl⟩
  | more form others => exact ⟨_, _, _, form, rfl⟩

/-- The items of an array do not begin with its end. -/
theorem Delimited.not_closed {items : List Tree} (each : Delimited Item ']' body items)
    (others : List Char) : skipBlank (body ++ rest) ≠ ']' :: others := by
  obtain ⟨part, t, behind, item, rfl⟩ := each.head
  obtain @⟨before, front, after, t, blank, written, trailing⟩ := item
  obtain ⟨c, inside, rfl, visible, apart⟩ := written.head
  rw [List.append_assoc, List.append_assoc, List.append_assoc, skipBlank_append blank,
    List.cons_append, skipBlank_cons visible]
  intro same
  cases same
  exact apart rfl

/-- The entries of an object do not begin with its end. -/
theorem Delimited.not_braced {entries : List (String × Tree)}
    (each : Delimited Entry '\x7d' body entries) (others : List Char) :
    skipBlank (body ++ rest) ≠ '\x7d' :: others := by
  obtain ⟨part, entry, behind, form, rfl⟩ := each.head
  obtain ⟨blank, -, -, -⟩ := form
  rw [List.append_assoc, List.append_assoc, skipBlank_append blank, List.cons_append,
    skipBlank_cons (by decide)]
  nofun

theorem readValue_written_step (b : Builder α) {depth : Nat}
    (inner : ∀ lower, depth = lower + 1 → Follows (readValue b lower) (Tree.build b lower)) :
    Follows (readValue b depth) (Tree.build b depth) := by
  intro before front t rest blank written stops
  rw [readValue, skipBlank_written blank written]
  cases written with
  | null => simp only [List.cons_append, List.nil_append, Tree.build, ok_bind]
  | bool x => cases x <;> simp [Tree.build]
  | string spelled =>
    simp only [List.cons_append, List.append_assoc, List.nil_append]
    rw [Quoted.read_append spelled, orSyntactic, ok_bind, Tree.build, ok_bind]
  | @number front l spelled =>
    have scanned := Literal.scan_append spelled stops
    obtain ⟨c, others, rfl, first⟩ := spelled.head
    -- a literal begins with none of the characters that the other values begin with
    have apart (d : Char) (other : d.isDigit = false) (minus : d ≠ '-') : c ≠ d := by
      rcases first with ⟨rfl, -⟩ | ⟨digit, -⟩
      · exact minus.symm
      · exact ne_of_isDigit digit other
    rw [List.cons_append] at scanned ⊢
    split
    case h_7 =>
      rw [Tree.build]
      cases number : l.number? <;> simp [scanned, orSyntactic, number]
    all_goals
      next same =>
        injection same with begins
        exact absurd begins (apart _ (by decide) (by decide))
  | @emptyArray inside blank =>
    simp only [List.cons_append, List.append_assoc, List.nil_append]
    cases depth with
    | zero => rfl
    | succ depth =>
      simp only [skipBlank_append blank, skipBlank_cons (by decide : isBlank ']' = false)]
      rfl
  | @array body items each =>
    simp only [List.cons_append]
    cases depth with
    | zero => rfl
    | succ depth =>
      have enough : items.length ≤ (body ++ rest).length :=
        each.length_le.trans (by simp)
      have listed := readItems_delimited (inner depth rfl) each [] _ enough rest
      simp only []
      split
      · next closed => exact absurd closed (each.not_closed _)
      · rw [listed, Tree.build]
        cases Tree.buildItems b depth items <;> rfl
  | @emptyObject inside blank =>
    simp only [List.cons_append, List.append_assoc, List.nil_append]
    cases depth with
    | zero => rfl
    | succ depth =>
      simp only [skipBlank_append blank, skipBlank_cons (by decide : isBlank '\x7d' = false)]
      rfl
  | @object body entries each =>
    simp only [List.cons_append]
    cases depth with
    | zero => rfl
    | succ depth =>
      have enough : entries.length ≤ (body ++ rest).length :=
        each.length_le.trans (by simp)
      have listed := readEntries_delimited (inner depth rfl) each ∅ [] _ enough rest
      simp only []
      split
      · next closed => exact absurd closed (each.not_braced _)
      · rw [listed, Tree.build]
        cases Tree.buildEntries b depth ∅ entries <;> rfl

/-- The reader makes of a written value what the builder makes of its tree. -/
theorem readValue_written (b : Builder α) (depth : Nat) :
    Follows (readValue b depth) (Tree.build b depth) := by
  induction depth with
  | zero => exact readValue_written_step b nofun
  | succ depth ih =>
    refine readValue_written_step b fun lower below => ?_
    cases below
    exact ih

/-! ## Only what is written is read -/

/-- What the reader reads is a written value, with blanks in front. -/
def Sees (read : Reader α) : Prop :=
  ∀ text a rest, read text = .ok (a, rest) →
    ∃ before front t, Blank before ∧ Written front t ∧ text = before ++ front ++ rest

theorem delimited_of_readItems {read : Reader α} (sees : Sees read) {found all : List α}
    {fuel : Nat} (listed : readItems read found fuel text = .ok (all, rest)) :
    ∃ body items, Delimited Item ']' body items ∧ text = body ++ rest := by
  induction fuel generalizing found text with
  | zero => cases listed
  | succ fuel ih =>
    rw [readItems, bind_eq_ok_iff] at listed
    obtain ⟨⟨a, behind⟩, first, listed⟩ := listed
    obtain ⟨before, front, t, blank, written, rfl⟩ := sees _ _ _ first
    obtain ⟨after, trailing, skipped⟩ := blank_of_skipBlank behind
    dsimp only at listed
    split at listed
    · next others comma =>
      obtain ⟨body, items, each, rfl⟩ := ih listed
      refine ⟨_, _, .more (.item blank written trailing) each, ?_⟩
      rw [skipped, comma]
      simp
    · next others bracket =>
      cases listed
      refine ⟨_, _, .last (.item blank written trailing), ?_⟩
      rw [skipped, bracket]
      simp
    · cases listed

theorem key_of_readKey {key : String} (read : readKey text = .ok (key, rest)) :
    ∃ before front, Blank before ∧ Quoted.Spells front key ∧
      text = before ++ '"' :: (front ++ '"' :: rest) := by
  obtain ⟨before, blank, skipped⟩ := blank_of_skipBlank text
  unfold readKey at read
  split at read
  · next inside quote =>
    cases quoted : Quoted.read inside with
    | none =>
      rw [quoted] at read
      cases read
    | some found =>
      rw [quoted] at read
      cases read
      obtain ⟨front, spelled, rfl⟩ := Quoted.read_eq_some_iff.1 quoted
      exact ⟨before, front, blank, spelled, by rw [skipped, quote]⟩
  · cases read

theorem delimited_of_readEntries {read : Reader α} {b : Builder α} (sees : Sees read)
    {seen : Std.HashSet String} {found all : List (String × α)} {fuel : Nat}
    (listed : readEntries b read seen found fuel text = .ok (all, rest)) :
    ∃ body entries, Delimited Entry '\x7d' body entries ∧ text = body ++ rest := by
  induction fuel generalizing seen found text with
  | zero => cases listed
  | succ fuel ih =>
    rw [readEntries, bind_eq_ok_iff] at listed
    obtain ⟨⟨key, behind⟩, keyed, listed⟩ := listed
    obtain ⟨before, front, blank, spelled, rfl⟩ := key_of_readKey keyed
    obtain ⟨between, padding, colon_at⟩ := blank_of_skipBlank behind
    dsimp only at listed
    split at listed
    · cases listed
    · split at listed
      · next value colon =>
        rw [bind_eq_ok_iff] at listed
        obtain ⟨⟨a, last⟩, first, listed⟩ := listed
        obtain ⟨inner, written, t, blank', written', rfl⟩ := sees _ _ _ first
        obtain ⟨after, trailing, skipped⟩ := blank_of_skipBlank last
        have item := Item.item blank' written' trailing
        dsimp only at listed
        split at listed
        · next others comma =>
          obtain ⟨body, entries, each, rfl⟩ := ih listed
          refine ⟨_, _, .more (.entry blank spelled padding item) each, ?_⟩
          rw [colon_at, colon, skipped, comma]
          simp
        · next others brace =>
          cases listed
          refine ⟨_, _, .last (.entry blank spelled padding item), ?_⟩
          rw [colon_at, colon, skipped, brace]
          simp
        · cases listed
      · cases listed

theorem orSyntactic_eq_ok_iff {β : Type} {x : Option β} {y : β} :
    orSyntactic x = .ok y ↔ x = some y := by
  cases x <;> simp [orSyntactic]

theorem sees_step (b : Builder α) {depth : Nat}
    (inner : ∀ lower, depth = lower + 1 → Sees (readValue b lower)) : Sees (readValue b depth) := by
  intro text a rest read
  obtain ⟨before, blank, skipped⟩ := blank_of_skipBlank text
  -- what is left to find is the value in front of the rest, behind the blanks
  suffices value : ∃ front t, Written front t ∧ skipBlank text = front ++ rest by
    obtain ⟨front, t, written, same⟩ := value
    exact ⟨before, front, t, blank, written, by rw [List.append_assoc, ← same, ← skipped]⟩
  rw [readValue] at read
  split at read
  · next behind begins =>
    cases read
    exact ⟨_, _, .null, begins⟩
  · next behind begins =>
    cases read
    exact ⟨_, _, .bool true, begins⟩
  · next behind begins =>
    cases read
    exact ⟨_, _, .bool false, begins⟩
  · next behind begins =>
    obtain ⟨⟨s, last⟩, quoted, same⟩ := bind_eq_ok_iff.1 read
    cases same
    obtain ⟨front, spelled, rfl⟩ := Quoted.read_eq_some_iff.1 (orSyntactic_eq_ok_iff.1 quoted)
    exact ⟨_, _, .string spelled, by rw [begins]; simp⟩
  · next behind begins =>
    cases depth with
    | zero => cases read
    | succ depth =>
      obtain ⟨inside, blanks, around⟩ := blank_of_skipBlank behind
      dsimp only at read
      split at read
      · next last bracket =>
        cases read
        exact ⟨_, _, .emptyArray blanks, by rw [begins, around, bracket]; simp⟩
      · obtain ⟨⟨items, last⟩, listed, same⟩ := bind_eq_ok_iff.1 read
        cases same
        obtain ⟨body, items, each, rfl⟩ := delimited_of_readItems (inner depth rfl) listed
        exact ⟨_, _, .array each, begins⟩
  · next behind begins =>
    cases depth with
    | zero => cases read
    | succ depth =>
      obtain ⟨inside, blanks, around⟩ := blank_of_skipBlank behind
      dsimp only at read
      split at read
      · next last brace =>
        cases read
        exact ⟨_, _, .emptyObject blanks, by rw [begins, around, brace]; simp⟩
      · obtain ⟨⟨entries, last⟩, listed, same⟩ := bind_eq_ok_iff.1 read
        cases same
        obtain ⟨body, entries, each, rfl⟩ := delimited_of_readEntries (inner depth rfl) listed
        exact ⟨_, _, .object each, begins⟩
  · obtain ⟨⟨l, last⟩, scanned, read⟩ := bind_eq_ok_iff.1 read
    obtain ⟨number, valued, read⟩ := bind_eq_ok_iff.1 read
    obtain ⟨leaf, made, same⟩ := bind_eq_ok_iff.1 read
    cases same
    obtain ⟨front, spelled, same⟩ := Literal.spells_of_scan (orSyntactic_eq_ok_iff.1 scanned)
    exact ⟨front, _, .number spelled, same⟩

theorem sees_readValue (b : Builder α) (depth : Nat) : Sees (readValue b depth) := by
  induction depth with
  | zero => exact sees_step b nofun
  | succ depth ih =>
    refine sees_step b fun lower below => ?_
    cases below
    exact ih

/-! ## Documents -/

/-- A text that is a value with blanks around it is read as what the builder makes of its tree. -/
theorem read_eq_build (b : Builder α) (item : Item text t) : read b text = t.build b depthLimit := by
  obtain ⟨after, blank, reads⟩ := (readValue_written b depthLimit).item item
  have whole := reads [] Literal.stops_nil
  rw [List.append_nil, List.append_nil] at whole
  have nothing : skipBlank after = [] := by
    have skipped := skipBlank_append blank []
    rwa [List.append_nil] at skipped
  rw [read, whole]
  cases t.build b depthLimit with
  | error e => rfl
  | ok a => simp [nothing]

/-- No other text is read. -/
theorem item_of_read {b : Builder α} {a : α} (accepted : read b text = .ok a) :
    ∃ t, Item text t ∧ t.build b depthLimit = .ok a := by
  have found := accepted
  rw [read, bind_eq_ok_iff] at found
  obtain ⟨⟨document, rest⟩, value, finished⟩ := found
  obtain ⟨before, front, t, blank, written, same⟩ := sees_readValue b depthLimit _ _ _ value
  obtain ⟨after, trailing, skipped⟩ := blank_of_skipBlank rest
  dsimp only at finished
  split at finished
  · next last =>
    rw [List.isEmpty_iff.1 last, List.append_nil] at skipped
    have item : Item text t := by
      rw [same, skipped]
      exact .item blank written trailing
    exact ⟨t, item, by rw [← read_eq_build b item, accepted]⟩
  · cases finished

end Patchbay.Json
