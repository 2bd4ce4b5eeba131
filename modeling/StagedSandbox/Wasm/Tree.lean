import StagedSandbox.Text.Hex

/-!
# Nested lists

The text format writes a module as nested lists of words and strings. A reader takes in one
character at a time. It reads the part of the format that has neither comments nor escapes other
than two digits for a byte.
-/

namespace StagedSandbox.Wasm

/-- A piece of the text format. -/
inductive Tree where
  | word (text : String)
  | string (data : List UInt8)
  | list (items : List Tree)
  deriving Repr

/-- Where in a piece a reader is; what it has read of the piece, the last first. -/
inductive Place where
  | between
  | word (soFar : List Char)
  | string (soFar : List UInt8)
  /-- After the mark of an escape. -/
  | escape (soFar : List UInt8)
  /-- After the first digit of an escape. -/
  | digit (soFar : List UInt8) (high : Nat)
  /-- After the end of a string, where something has to separate it from what follows. -/
  | stringEnd
  deriving DecidableEq, Repr

/-- What was read so far. Of each list the last item is the first one. -/
structure Reader where
  /-- The items of the innermost list that is open. -/
  items : List Tree := []
  /-- The items of the lists around it, innermost first. -/
  outer : List (List Tree) := []
  place : Place := .between
  deriving Repr

namespace Reader

/-- Whether a character separates pieces. -/
def isBlank (c : Char) : Bool := c = ' ' || c = '\n' || c = '\r' || c = '\t'

/-- Whether a character is one of those that words are made of. -/
def isWordChar (c : Char) : Bool :=
  c.isAlphanum || "!#$%&'*+-./:<=>?@\\^_`|~".toList.contains c

/-- Whether a character stands for itself in a string. -/
def isPlain (c : Char) : Bool := 0x20 ≤ c.toNat && c.toNat < 0x7f && c ≠ '"' && c ≠ '\\'

/-- Take in a character between pieces that begins none of them. -/
def separate (r : Reader) (c : Char) : Option Reader :=
  if c = '(' then some ⟨[], r.items :: r.outer, .between⟩
  else if c = ')' then
    match r.outer with
    | [] => none
    | items :: outer => some ⟨.list r.items.reverse :: items, outer, .between⟩
  else if isBlank c then some { r with place := .between }
  else none

/-- Take in a character, unless it cannot stand there. -/
def step (r : Reader) (c : Char) : Option Reader :=
  match r.place with
  | .between =>
    if isWordChar c then some { r with place := .word [c] }
    else if c = '"' then some { r with place := .string [] }
    else r.separate c
  | .word soFar =>
    if isWordChar c then some { r with place := .word (c :: soFar) }
    else { r with items := .word (String.ofList soFar.reverse) :: r.items }.separate c
  | .string soFar =>
    if c = '"' then some { r with items := .string soFar.reverse :: r.items, place := .stringEnd }
    else if c = '\\' then some { r with place := .escape soFar }
    else if isPlain c then some { r with place := .string (UInt8.ofNat c.toNat :: soFar) }
    else none
  | .escape soFar =>
    (Text.Hex.value? (UInt8.ofNat c.toNat)).map fun high =>
      { r with place := .digit soFar high }
  | .digit soFar high =>
    (Text.Hex.value? (UInt8.ofNat c.toNat)).map fun low =>
      { r with place := .string (UInt8.ofNat (16 * high + low) :: soFar) }
  | .stringEnd => r.separate c

/-- Take in a text. -/
def feed (r : Reader) (text : List Char) : Option Reader := text.foldlM step r

end Reader

/-- The list that a text holds, if it holds one and nothing else. -/
def Tree.read? (text : List Char) : Option (List Tree) :=
  match Reader.feed {} text with
  | some ⟨[.list items], [], .between⟩ => some items
  | _ => none

end StagedSandbox.Wasm
