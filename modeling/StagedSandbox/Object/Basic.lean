import StagedSandbox.Bytes
import StagedSandbox.Source.Syntax

/-!
# Object files

An object file holds the operations of a compiled program in order. A release build merges writes
that follow each other.
-/

namespace StagedSandbox

/-- An operation of a compiled program. -/
inductive Op where
  /-- Write bytes to the output stream. -/
  | write (data : Bytes)
  /-- End with an exit code. -/
  | exit (code : Int32)
  /-- End by a signal. -/
  | abort
  deriving DecidableEq

namespace Op

/-- The operation that a statement compiles to. -/
def ofStatement : Source.Statement → Op
  | .exit code => .exit code
  | .abort => .abort
  | s => .write (Bytes.ofText (String.ofList s.shown))

/-- Put an operation in front of others, merging two writes. -/
def mergeCons : Op → List Op → List Op
  | .write first, .write second :: rest => .write (first ++ second) :: rest
  | op, rest => op :: rest

/-- Merge writes that follow each other. -/
def mergeWrites (ops : List Op) : List Op := ops.foldr mergeCons []

end Op

/-- A compiled program, with the path of its source. -/
structure ObjectFile where
  source : Option String
  ops : List Op
  deriving DecidableEq

end StagedSandbox
