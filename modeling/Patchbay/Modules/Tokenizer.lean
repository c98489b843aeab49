import Patchbay.Component
import Patchbay.Host
import Patchbay.Json.Value
import Patchbay.Text.Shown
import Patchbay.Value.Args

/-!
# The tokenizer

A component that cuts text into the pieces of a vocabulary, at each place the longest piece that
fits, and puts token ids together to text again. No piece is empty and no two pieces share an id.
-/

namespace Patchbay.Modules

/-- `longest` is the size of the longest piece in bytes. -/
structure Tokenizer where
  pieces : Table String Int64
  ids : Table Int64 String
  longest : Nat

namespace Tokenizer

def empty : Tokenizer := ⟨[], [], 0⟩

/-- Adds an entry of a vocabulary. -/
def add (t : Tokenizer) (piece : String) (v : Value) : Except Fault Tokenizer :=
  match v with
  | .int id =>
    if piece.isEmpty then .error (.failed "vocabulary contains an empty piece")
    else
      match Table.find? t.ids id with
      | some previous =>
        let pieces := Text.shown previous ++ " and " ++ Text.shown piece
        .error (.failed s!"token id {id} assigned to both {pieces}")
      | none =>
        .ok { pieces := Table.put t.pieces piece id
              ids := Table.put t.ids id piece
              longest := max t.longest piece.utf8ByteSize }
  | v => .error (.wrongType "tokenizer" ("vocab." ++ piece) "int" v.typeName)

def ofVocabulary (vocabulary : Fields) : Except Fault Tokenizer :=
  vocabulary.foldlM (fun t entry => t.add entry.1 entry.2) empty

/-- A vocabulary in a file, as a JSON object. -/
def ofFile (host : Host) (path : String) : Except Fault Tokenizer :=
  match host.readText path with
  | .error e => .error (.failed s!"failed to read vocabulary {path}: {e.message}")
  | .ok text =>
    match Value.ofJson text with
    | .error d => .error (.failed s!"invalid vocabulary {path}: {d.message}")
    | .ok (.map vocabulary) => ofVocabulary vocabulary
    | .ok _ => .error (.failed s!"vocabulary {path} must be a JSON object")

/-- The piece of exactly `size` bytes at the start of a text: where it ends, and its id. Nothing is
looked up whose end would be inside a character. -/
def pieceAt? (t : Tokenizer) (text : String.Slice) (size : Nat) : Option (text.Pos × Int64) :=
  (text.pos? ⟨size⟩).bind fun stop =>
    (Table.find? t.pieces (text.sliceTo stop).copy).map fun id => (stop, id)

/-- Looks for a piece of at most `size` bytes at the start of a text, the longest first. -/
def match? (t : Tokenizer) (text : String.Slice) : (size : Nat) → Option (text.Pos × Int64)
  | 0 => none
  | size + 1 =>
    match t.pieceAt? text (size + 1) with
    | some found => some found
    | none => match? t text size

theorem pos?_eq_some_iff {text : String.Slice} {offset : String.Pos.Raw} {stop : text.Pos} :
    text.pos? offset = some stop ↔ stop.offset = offset := by
  rw [String.Slice.pos?]
  constructor
  · intro placed
    split at placed
    · cases placed
      rfl
    · cases placed
  · rintro rfl
    rw [dif_pos (String.Pos.Raw.isValidForSlice_eq_true_iff.2 stop.isValidForSlice)]
    rfl

theorem offset_of_pieceAt? {t : Tokenizer} {text : String.Slice} {size : Nat} {stop : text.Pos}
    {id : Int64} (found : t.pieceAt? text size = some (stop, id)) : stop.offset = ⟨size⟩ := by
  obtain ⟨stop, placed, found⟩ := Option.bind_eq_some_iff.1 found
  obtain ⟨id, -, same⟩ := Option.map_eq_some_iff.1 found
  cases same
  exact pos?_eq_some_iff.1 placed

/-- A match takes something off a text. -/
theorem lt_of_match? {t : Tokenizer} {text : String.Slice} {size : Nat} {stop : text.Pos}
    {id : Int64} (found : t.match? text size = some (stop, id)) :
    (text.sliceFrom stop).utf8ByteSize < text.utf8ByteSize := by
  induction size with
  | zero => cases found
  | succ size ih =>
    rw [match?] at found
    split at found
    · next here =>
      cases found
      have reached := stop.isValidForSlice.le_rawEndPos
      rw [offset_of_pieceAt? here, String.Pos.Raw.le_iff, String.Slice.byteIdx_rawEndPos] at reached
      rw [String.Slice.utf8ByteSize_sliceFrom, offset_of_pieceAt? here]
      dsimp only at reached ⊢
      omega
    · exact ih found

/-- The tokens of the rest of a text of `whole` bytes, after those in `found`, which is in reverse. -/
def tokens (t : Tokenizer) (whole : Nat) (found : List Int64) (rest : String.Slice) :
    Except Fault (List Int64) :=
  if rest.isEmpty then .ok found.reverse
  else
    match matched : t.match? rest (min t.longest rest.utf8ByteSize) with
    | some (stop, id) =>
      have := lt_of_match? matched
      t.tokens whole (id :: found) (rest.sliceFrom stop)
    | none =>
      let offset := whole - rest.utf8ByteSize
      .error (.failed s!"no vocabulary piece matches at byte {offset}")
termination_by rest.utf8ByteSize
decreasing_by assumption

def encode (t : Tokenizer) (text : String) : Except Fault (List Int64) :=
  t.tokens text.utf8ByteSize [] text.toSlice

/-- The text of one token. -/
def piece (t : Tokenizer) : Value → Except Fault String
  | .int id =>
    match Table.find? t.ids id with
    | some piece => .ok piece
    | none => .error (.failed s!"unknown token id {id}")
  | v => .error (.wrongType "decode" "tokens" "int" v.typeName)

def decode (t : Tokenizer) (tokens : List Value) : Except Fault String :=
  tokens.foldlM (fun text token => return text ++ (← t.piece token)) ""

def encodeMethod (t : Tokenizer) (args : Value) : Except Fault Value × Tokenizer :=
  ((do
    let tokens ← t.encode (← (← Args.ofValue "encode" args).string "text")
    return .map [("tokens", .array (tokens.map Value.int))]), t)

def decodeMethod (t : Tokenizer) (args : Value) : Except Fault Value × Tokenizer :=
  ((do
    let text ← t.decode (← (← Args.ofValue "decode" args).array "tokens")
    return .map [("text", .string text)]), t)

/-- The vocabulary given in the arguments, or else the one in the file that they name. -/
def ofArgs (host : Host) (a : Args) : Except Fault Tokenizer := do
  let path ← a.string? "vocab_path"
  match a.fields.find "vocab", path with
  | some _, _ => ofVocabulary (← a.mapField "vocab")
  | none, some path => ofFile host path
  | none, none => .error (.outOfRange a.op "vocab")

def factory (host : Host) : Factory Tokenizer := fun args => do
  let t ← ofArgs host (← Args.ofValue "tokenizer" args)
  return {
    state := t
    methods := [("encode", .instant encodeMethod), ("decode", .instant decodeMethod)]
    teardown := fun _ => [] }

end Tokenizer

end Patchbay.Modules
