import Patchbay.Config.File
import Patchbay.Proofs.Hosts
import Patchbay.Proofs.Json.Grammar

/-!
# Configurations read back

The file of a configuration has a line for each setting. The reader takes the settings from the lines one
by one, starting from the standard ones, and at the end it has all of them: a configuration that was saved
is read back as it was, whether or not it is valid.
-/

namespace Patchbay

open Json

variable {s : Setting} {before rest : List Char}

/-! ## Settings -/

namespace Setting

/-- The value of a setting as it stands in a file. -/
def valueText (c : Config) (s : Setting) : List Char := (s.put "" c).toList

theorem put_toList (out : String) (c : Config) (s : Setting) :
    (s.put out c).toList = out.toList ++ s.valueText c := by
  unfold valueText
  cases s <;> simp [put, putInt, Quoted.put_toList]

/-- The first configuration with one setting taken from the second. -/
def copy (d c : Config) : Setting → Config
  | endpoint => { d with endpoint := c.endpoint }
  | scheduling => { d with scheduling := c.scheduling }
  | mailboxCapacity => { d with mailboxCapacity := c.mailboxCapacity }
  | connectTimeout => { d with connectTimeout := c.connectTimeout }
  | readyTimeout => { d with readyTimeout := c.readyTimeout }
  | stopTimeout => { d with stopTimeout := c.stopTimeout }
  | logFilter => { d with logFilter := c.logFilter }

/-- Nothing is left of the configuration into which all settings are copied. -/
theorem foldl_copy (d c : Config) : all.foldl (fun d s => s.copy d c) d = c := rfl

theorem ofKey?_key (s : Setting) : ofKey? s.key = some s := by
  cases s <;> decide

/-- Behind blanks stands the quote in front of a text. -/
theorem skipBlank_quoted (blank : Blank before) (x : String) (rest : List Char) :
    skipBlank (before ++ (Quoted.put "" x).toList ++ rest) =
      '"' :: (x.toList.flatMap Quoted.escape ++ '"' :: rest) := by
  have visible : isBlank '"' = false := rfl
  rw [Quoted.put_toList, List.append_assoc, skipBlank_append blank, String.toList_empty,
    List.nil_append, List.cons_append, skipBlank_cons visible]
  simp

theorem readText_quoted (blank : Blank before) (x : String) (rest : List Char) :
    readText (before ++ (Quoted.put "" x).toList ++ rest) = some (x, rest) := by
  rw [readText, skipBlank_quoted blank]
  exact Quoted.read_append (Quoted.spells_escaped x) rest

/-- All numbers of 64 bits are read exactly. -/
theorem readCount_digits (blank : Blank before) (n : UInt64) (stops : Literal.Stops rest) :
    readCount (before ++ (putInt "" n.toNat).toList ++ rest) = some (n, rest) := by
  have spelled := Literal.spells_toString (n.toNat : Int)
  have digits : (putInt "" n.toNat).toList = (toString (n.toNat : Int)).toList := by
    simp [putInt]
  have sign : (Literal.ofInt (n.toNat : Int)).negative = false := by
    simp [Literal.ofInt]
  have value : (Literal.ofInt (n.toNat : Int)).magnitude = n.toNat := Nat.ofDigitChars_ten_toDigits
  have number := Literal.number?_natural_iff.2 ⟨⟨rfl, rfl⟩, sign, value, n.toNat_lt⟩
  rw [readCount, digits, skipBlank_written blank (.number spelled), Literal.scan_append spelled stops]
  simp [number]

theorem modeOf?_name (mode : Scheduling) : modeOf? mode.name = some mode := by
  cases mode <;> rfl

theorem readMode_name (blank : Blank before) (mode : Scheduling) (rest : List Char) :
    readMode (before ++ (Quoted.put "" mode.name).toList ++ rest) = some (mode, rest) := by
  have read : readText ('"' :: (mode.name.toList.flatMap Quoted.escape ++ '"' :: rest)) =
      some (mode.name, rest) := Quoted.read_append (Quoted.spells_escaped mode.name) rest
  rw [readMode, skipBlank_quoted blank]
  simp [read, modeOf?_name]

theorem read_valueText (blank : Blank before) (stops : Literal.Stops rest) (d c : Config)
    (s : Setting) : s.read d (before ++ s.valueText c ++ rest) = some (s.copy d c, rest) := by
  unfold valueText
  cases s with
  | endpoint | logFilter => simp only [read, put, readText_quoted blank, Option.map_some, copy]
  | scheduling => simp only [read, put, readMode_name blank, Option.map_some, copy]
  | mailboxCapacity | connectTimeout | readyTimeout | stopTimeout =>
    simp only [read, put, readCount_digits blank _ stops, Option.map_some, copy]

/-- The line of a setting, up to the comma or the end of the line. -/
def lineText (c : Config) (s : Setting) : List Char :=
  [' ', ' '] ++ (Quoted.put "" s.key).toList ++ ':' :: ([' '] ++ s.valueText c)

end Setting

namespace Config

open Setting

theorem putSettings_toList (c : Config) (s : Setting) (settings : List Setting) (out : String) :
    (putSettings c out (s :: settings)).toList =
      out.toList ++ s.lineText c ++ settings.flatMap (fun t => ',' :: '\n' :: t.lineText c) ++
        ['\n'] := by
  induction settings generalizing s out with
  | nil => simp [putSettings, lineText, put_toList, Quoted.put_toList]
  | cons t settings ih =>
    rw [putSettings, ih]
    · simp [lineText, put_toList, Quoted.put_toList]
    · simp

theorem readEntries_line {fuel : Nat} {seen : List Setting} (blank : Blank before) (new : s ∉ seen)
    (stops : Literal.Stops rest) (d c : Config) :
    readEntries (fuel + 1) d seen (before ++ s.lineText c ++ rest) =
      match skipBlank rest with
      | ',' :: text => readEntries fuel (s.copy d c) (s :: seen) text
      | '\x7d' :: text => some (s.copy d c, text)
      | _ => none := by
  have front : before ++ s.lineText c ++ rest =
      (before ++ [' ', ' ']) ++ (Quoted.put "" s.key).toList ++
        ':' :: ([' '] ++ s.valueText c ++ rest) := by
    simp [lineText]
  have space : Blank [' '] := by simp [Blank, isBlank]
  have indented : Blank (before ++ [' ', ' ']) :=
    List.forall_mem_append.2 ⟨blank, List.forall_mem_append.2 ⟨space, space⟩⟩
  have colon : isBlank ':' = false := rfl
  rw [front, readEntries, readText_quoted indented]
  simp only [Option.bind_eq_bind, Option.bind_some, skipBlank_cons colon, ofKey?_key, if_neg new]
  rw [read_valueText space stops]
  rfl

/-- The lines of different settings are read one by one, each into what was read before. -/
theorem readEntries_lines {settings seen : List Setting} (blank : Blank before)
    (distinct : (s :: settings).Nodup) (new : ∀ t ∈ s :: settings, t ∉ seen) {fuel : Nat}
    (enough : settings.length < fuel) (d c : Config) (rest : List Char) :
    readEntries fuel d seen
        (before ++ s.lineText c ++ (settings.flatMap (fun t => ',' :: '\n' :: t.lineText c) ++
          '\n' :: '\x7d' :: rest)) =
      some ((s :: settings).foldl (fun d t => t.copy d c) d, rest) := by
  have lineEnd : Blank ['\n'] := by simp [Blank, isBlank]
  induction settings generalizing before s d seen fuel with
  | nil =>
    obtain ⟨fuel, rfl⟩ := Nat.exists_eq_add_one_of_ne_zero (Nat.ne_zero_of_lt enough)
    have brace : isBlank '\x7d' = false := rfl
    have stops : Literal.Stops ('\n' :: '\x7d' :: rest) := Literal.stops_cons.2 (by decide)
    have behind : skipBlank ('\n' :: '\x7d' :: rest) = '\x7d' :: rest :=
      (skipBlank_append lineEnd _).trans (skipBlank_cons brace rest)
    rw [List.flatMap_nil, List.nil_append, readEntries_line blank (new s List.mem_cons_self) stops,
      behind]
    rfl
  | cons t settings ih =>
    obtain ⟨fuel, rfl⟩ := Nat.exists_eq_add_one_of_ne_zero (Nat.ne_zero_of_lt enough)
    obtain ⟨apart, others⟩ := List.nodup_cons.1 distinct
    have later : ∀ u ∈ t :: settings, u ∉ s :: seen := by
      intro u member
      apply List.not_mem_cons_of_ne_of_not_mem
      · rintro rfl
        exact apart member
      · exact new u (List.mem_cons_of_mem s member)
    have comma : isBlank ',' = false := rfl
    have stops (tail : List Char) : Literal.Stops (',' :: tail) := Literal.stops_cons.2 (by decide)
    rw [List.flatMap_cons, List.cons_append, List.cons_append,
      readEntries_line blank (new s List.mem_cons_self) (stops _), skipBlank_cons comma]
    have next := ih lineEnd others later (Nat.lt_of_succ_lt_succ enough) (s.copy d c)
    simpa using next

/-! ## Files -/

/-- What stands in a saved file behind the brace that opens it. -/
def bodyText (c : Config) : List Char :=
  ['\n'] ++ Setting.endpoint.lineText c ++
    (Setting.all.tail.flatMap (fun t => ',' :: '\n' :: t.lineText c) ++ ['\n', '\x7d'])

theorem toText_toList (c : Config) : c.toText.toList = '\x7b' :: c.bodyText := by
  have lines := putSettings_toList c .endpoint Setting.all.tail "\x7b\n"
  change (putSettings c "\x7b\n" (.endpoint :: Setting.all.tail) ++ "\x7d").toList = _
  rw [String.toList_append, lines, bodyText]
  simp

theorem skipBlank_bodyText (c : Config) : ∃ tail, skipBlank c.bodyText = '"' :: tail := by
  have margin : Blank ['\n', ' ', ' '] := by simp [Blank, isBlank]
  have front : ∃ tail, c.bodyText =
      ['\n', ' ', ' '] ++ (Quoted.put "" Setting.endpoint.key).toList ++ tail := by
    simp [bodyText, lineText]
  obtain ⟨tail, front⟩ := front
  rw [front, skipBlank_quoted margin]
  exact ⟨_, rfl⟩

/-- The text that is saved is read as the configuration that it was made of. -/
theorem ofText?_toText (c : Config) : ofText? c.toText = some c := by
  have lineEnd : Blank ['\n'] := by simp [Blank, isBlank]
  have brace : isBlank '\x7b' = false := rfl
  have enough : Setting.all.tail.length < c.bodyText.length := by
    simp only [bodyText, Setting.all, List.tail_cons, List.flatMap_cons, List.length_append,
      List.length_cons, List.length_nil]
    omega
  have read : readEntries c.bodyText.length standard [] c.bodyText =
      some (Setting.all.foldl (fun d t => t.copy d c) standard, []) :=
    readEntries_lines lineEnd (by decide) (fun _ _ => List.not_mem_nil) enough standard c []
  rw [foldl_copy] at read
  obtain ⟨tail, first⟩ := skipBlank_bodyText c
  have whole : readBody c.toText.toList = some (c, []) := by
    simp [toText_toList, readBody, skipBlank_cons brace, first, read]
  rw [ofText?, whole]
  rfl

/-- A configuration that is saved, valid or not, is read back as it was wherever the path leads to a
file or to a place for one, once the directories on the way are made; and only there. -/
theorem config_round_trip (c : Config) :
    ofText? c.toText = some c ∧
      ∀ host path, (∃ after, save host path c = .ok after ∧ ofFile after path = .ok c) ↔
        ∃ made, host.makeParent path = .ok made ∧ made.Keeps path := by
  refine ⟨ofText?_toText c, fun host path => ?_⟩
  constructor
  · rintro ⟨after, saved, loaded⟩
    unfold save at saved
    split at saved
    · cases saved
    · next made parent =>
      split at saved
      · cases saved
      · next wrote =>
        cases saved
        refine ⟨made, parent, (Host.keeps_of_write wrote).resolve_right fun empty => ?_⟩
        -- a device gives back an empty file, which is no configuration
        have nothing : after.readText path = .ok "" := Host.readText_of_read empty
        rw [ofFile, nothing] at loaded
        cases loaded
  · rintro ⟨made, parent, keeps⟩
    obtain ⟨after, wrote, held⟩ := Host.read_of_keeps keeps (Bytes.ofText c.toText)
    refine ⟨after, ?_, ?_⟩
    · rw [save, parent]
      dsimp only
      rw [wrote]
    · rw [ofFile, Host.readText_of_read held]
      dsimp only
      rw [ofText?_toText]

/-! A file in a directory that is not there yet. -/

theorem endsWith_slash_eq_false {path : String} (last : path.toList.getLast? ≠ some '/') :
    path.endsWith "/" = false := by
  rw [String.endsWith_eq_endsWith_toSlice, String.Slice.endsWith_string_eq_false_iff]
  rintro ⟨front, same⟩
  simp only [String.copy_toSlice] at same
  simp [← same] at last

theorem steps_directory : Host.steps "a" = ["a"] := by
  rw [Host.steps, String.splitOn, if_neg (by decide), String.splitOnAux, if_neg (by decide),
    if_neg (by decide), String.splitOnAux, if_pos (by decide)]
  rfl

theorem steps_file : Host.steps "a/c" = ["a", "c"] := by
  rw [Host.steps, String.splitOn, if_neg (by decide), String.splitOnAux, if_neg (by decide),
    if_neg (by decide), String.splitOnAux, if_neg (by decide), if_pos (by decide)]
  dsimp only
  rw [if_pos (by decide), String.splitOnAux, if_neg (by decide), if_neg (by decide),
    String.splitOnAux, if_pos (by decide)]
  rfl

theorem approach_directory :
    Host.empty.approach "a" = .ok (.named ["tmp", "", "a"] false) := by
  have ends : "a".endsWith "/" = false := endsWith_slash_eq_false (by decide)
  have relative : Host.isAbsolute "a" = false := by simp [Host.isAbsolute]
  rw [Host.approach, if_neg (by decide), if_neg (by simp), if_neg (by decide), steps_directory]
  simp only [ends, Host.origin, relative]
  rfl

theorem makeParent_file :
    Host.empty.makeParent "a/c" = .ok (Host.empty.put ["tmp", "", "a"] .directory) := by
  have relative : Host.isAbsolute "a/c" = false := by simp [Host.isAbsolute]
  have front : (["a", "c"].filter (· != ".")).dropLast.reverse = ["a"] := by decide
  have above : Host.pathOf false ["a"] = "a" := by decide
  rw [Host.makeParent, steps_file, relative, front]
  simp only [Host.makeTree, Host.makeDirectory, above, approach_directory]
  rfl

theorem approach_file : (Host.empty.put ["tmp", "", "a"] .directory).approach "a/c" =
    .ok (.named ["tmp", "", "a", "c"] false) := by
  have ends : "a/c".endsWith "/" = false := endsWith_slash_eq_false (by decide)
  have relative : Host.isAbsolute "a/c" = false := by simp [Host.isAbsolute]
  rw [Host.approach, if_neg (by decide), if_neg (by simp), if_neg (by decide), steps_file]
  simp only [ends, Host.origin, relative]
  rfl

/-- All that is escaped, a character beyond 16 bits, both ends of the numbers and one that double
precision does not hold: no server would take these settings, and still they come back. -/
theorem config_round_trip_edges :
    let edges : Config := ⟨"\x00\x08\t\n\x0c\r\x1f\"\\/\x7f", .cooperative, 0, 0xFFFFFFFFFFFFFFFF,
      0x20000000000001, 1, "😀"⟩
    edges.validate ≠ .ok () ∧
      ∃ after, save Host.empty "a/c" edges = .ok after ∧ ofFile after "a/c" = .ok edges := by
  intro edges
  constructor
  · unfold validate
    cases edges.listenOn with
    | error refusal => simp
    | ok endpoint => simp [edges]
  · exact ((config_round_trip edges).2 _ _).2 ⟨_, makeParent_file, _, approach_file, .inl rfl⟩

end Config

end Patchbay
