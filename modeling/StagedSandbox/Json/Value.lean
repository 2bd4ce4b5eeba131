import StagedSandbox.Json.Token

/-!
# JSON values

A list of tokens is read as a value by a machine that takes in one token at a time and keeps the
arrays and objects that are still open on a stack, so that values may be nested to any depth.
Objects keep their entries in the order of the text, repeated keys included.
-/

namespace StagedSandbox.Json

/-- A string whose escapes make characters has a text. -/
abbrev Text := Option (List Char)

inductive Value where
  | null
  | bool (value : Bool)
  | number (value : Option Nat)
  | text (value : Text)
  | array (items : List Value)
  | object (entries : List (Text × Value))

/-- An array or object that is still open; what it holds so far, the last one first. -/
inductive Frame where
  | array (before : List Value)
  | object (before : List (Text × Value)) (key : Text)

/-- What may come next. -/
inductive Reading where
  | value (frames : List Frame)
  | firstItem (frames : List Frame)
  | firstKey (frames : List Frame)
  | nextKey (before : List (Text × Value)) (frames : List Frame)
  | afterKey (before : List (Text × Value)) (key : Text) (frames : List Frame)
  | afterValue (value : Value) (frames : List Frame)

/-- Take in a token that begins a value. -/
def beginValue (frames : List Frame) : Token → Option Reading
  | .null => some (.afterValue .null frames)
  | .bool b => some (.afterValue (.bool b) frames)
  | .number n => some (.afterValue (.number n) frames)
  | .text t => some (.afterValue (.text t) frames)
  | .openArray => some (.firstItem frames)
  | .openObject => some (.firstKey frames)
  | _ => none

/-- Take in a token. -/
def Reading.step : Reading → Token → Option Reading
  | .value frames, token => beginValue frames token
  | .firstItem frames, .closeArray => some (.afterValue (.array []) frames)
  | .firstItem frames, token => beginValue (.array [] :: frames) token
  | .firstKey frames, .closeObject => some (.afterValue (.object []) frames)
  | .firstKey frames, .text key => some (.afterKey [] key frames)
  | .nextKey before frames, .text key => some (.afterKey before key frames)
  | .afterKey before key frames, .colon => some (.value (.object before key :: frames))
  | .afterValue v (.array before :: frames), .comma =>
    some (.value (.array (v :: before) :: frames))
  | .afterValue v (.array before :: frames), .closeArray =>
    some (.afterValue (.array (v :: before).reverse) frames)
  | .afterValue v (.object before key :: frames), .comma =>
    some (.nextKey ((key, v) :: before) frames)
  | .afterValue v (.object before key :: frames), .closeObject =>
    some (.afterValue (.object ((key, v) :: before).reverse) frames)
  | _, _ => none

/-- The value that a list of tokens forms. -/
def Value.ofTokens? (tokens : List Token) : Option Value :=
  match tokens.foldlM Reading.step (.value []) with
  | some (.afterValue v []) => some v
  | _ => none

/-- The value that a text denotes. -/
def Value.parse? (text : List Char) : Option Value := (tokens text).bind Value.ofTokens?

/-! ### Writing -/

/-- A control character by its number. -/
def escapeControl (c : Char) : List Char :=
  ['\\', 'u', '0', '0', Nat.digitChar (c.toNat / 16), Nat.digitChar (c.toNat % 16)]

/-- A character as it is written in a string. -/
def escapeChar (c : Char) : List Char :=
  if c = '"' then ['\\', '"']
  else if c = '\\' then ['\\', '\\']
  else if c = '\x08' then ['\\', 'b']
  else if c = '\x0c' then ['\\', 'f']
  else if c = '\n' then ['\\', 'n']
  else if c = '\r' then ['\\', 'r']
  else if c = '\t' then ['\\', 't']
  else if c < ' ' then escapeControl c
  else [c]

/-- A text as a string, without needless escapes. -/
def renderText (text : List Char) : List Char := '"' :: (text.flatMap escapeChar ++ ['"'])

/-- A natural number in decimal. -/
def renderNat (n : Nat) : List Char := Nat.toDigits 10 n

end StagedSandbox.Json
