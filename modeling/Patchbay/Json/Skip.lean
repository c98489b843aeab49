import Patchbay.Json.Reader

/-!
# Passing over a JSON value

A value of no interest is only checked for its grammar: containers may nest to any depth, numbers
have any size, and escaped units need not form characters. The open containers are on a stack.
-/

namespace Patchbay.Json

/-- Passes over a string whose opening quote has been read. -/
def skipQuoted (text : List Char) : Option (List Char) := (Quoted.scan [] text).map Prod.snd

/-- Passes over a key and its colon. -/
def skipKey (text : List Char) : Option (List Char) :=
  match skipBlank text with
  | '"' :: text => do
    let text ← skipQuoted text
    match skipBlank text with
    | ':' :: text => some text
    | _ => none
  | _ => none

/-- Passes over a value that is not a container. -/
def skipLeaf : List Char → Option (List Char)
  | 'n' :: 'u' :: 'l' :: 'l' :: text => some text
  | 't' :: 'r' :: 'u' :: 'e' :: text => some text
  | 'f' :: 'a' :: 'l' :: 's' :: 'e' :: text => some text
  | '"' :: text => skipQuoted text
  | text => (Literal.scan text).map Prod.snd

mutual

/-- Passes over a value, then over what is left of the open containers; an object is `true` on the
stack. `fuel` bounds the values and ends of containers: each takes at least one character. -/
def skipValue (fuel : Nat) (stack : List Bool) (text : List Char) : Option (List Char) :=
  match fuel with
  | 0 => none
  | fuel + 1 =>
    match skipBlank text with
    | '[' :: text =>
      match skipBlank text with
      | ']' :: text => skipRest fuel stack text
      | _ => skipValue fuel (false :: stack) text
    | '\x7b' :: text =>
      match skipBlank text with
      | '\x7d' :: text => skipRest fuel stack text
      | _ => do
        let text ← skipKey text
        skipValue fuel (true :: stack) text
    | text => do
      let text ← skipLeaf text
      skipRest fuel stack text

/-- Goes on after a value inside the open containers. -/
def skipRest (fuel : Nat) (stack : List Bool) (text : List Char) : Option (List Char) :=
  match fuel with
  | 0 => if stack.isEmpty then some text else none
  | fuel + 1 =>
    match stack with
    | [] => some text
    | object :: outer =>
      match object, skipBlank text with
      | true, ',' :: text => do
        let text ← skipKey text
        skipValue fuel stack text
      | true, '\x7d' :: text => skipRest fuel outer text
      | false, ',' :: text => skipValue fuel stack text
      | false, ']' :: text => skipRest fuel outer text
      | _, _ => none

end

/-- Passes over one value. -/
def skip (text : List Char) : Option (List Char) := skipValue (2 * text.length + 1) [] text

end Patchbay.Json
