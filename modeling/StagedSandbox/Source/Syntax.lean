import StagedSandbox.Text.Integer

/-!
# Source programs

A source program has one statement to a line, between blank lines and comments.
-/

namespace StagedSandbox.Source

/-- What a statement prints: a number of 64 bits, or a text. -/
inductive Value where
  | number (n : Int)
  | text (text : List Char)
  deriving DecidableEq, Repr

inductive Statement where
  /-- Print a value. -/
  | print (value : Value)
  /-- Print a value, if there is one, and a line break. -/
  | puts (value : Option Value)
  /-- End with an exit code. -/
  | exit (code : Int32)
  /-- End by a signal. -/
  | abort
  deriving DecidableEq, Repr

inductive Line where
  | blank
  /-- A comment, with its mark. -/
  | comment (text : List Char)
  | statement (statement : Statement)
  deriving DecidableEq, Repr

/-- The characters that a value prints. -/
def Value.shown : Value → List Char
  | .number n => (Text.signed n).toList
  | .text t => t

/-- The characters that a statement prints. -/
def Statement.shown : Statement → List Char
  | .print v => v.shown
  | .puts none => ['\n']
  | .puts (some v) => v.shown ++ ['\n']
  | .exit _ | .abort => []

/-- The statement of a line. -/
def Line.statement? : Line → Option Statement
  | .statement s => some s
  | _ => none

end StagedSandbox.Source
