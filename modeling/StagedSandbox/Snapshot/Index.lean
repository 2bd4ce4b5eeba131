import StagedSandbox.Bytes
import StagedSandbox.Table
import StagedSandbox.Text.Split

/-!
# The index of a snapshot

An index names directories and files by their paths, as texts; a file is a range of the blob.
-/

namespace StagedSandbox

/-- What an index holds at a path. -/
inductive Entry where
  | dir
  | file (offset length : Nat)
  deriving DecidableEq, Repr

/-- The entries of a snapshot by their paths, in the order of the paths. -/
abbrev Index := Table String Entry

namespace Index

/-- The text with which the paths below a path begin: a single slash after the path. -/
def below (path : String) : List Char :=
  (path.toList.reverse.dropWhile (· = '/')).reverse ++ ['/']

/-- Drop all entries below a path. -/
def removeBelow (index : Index) (path : String) : Index :=
  index.filter fun entry => !(below path).isPrefixOf entry.1.toList

/-- Drop all entries below a path, and count them. -/
def dropBelow (index : Index) (path : String) : Nat × Index :=
  let left := index.removeBelow path
  (index.length - left.length, left)

/-- The number of directories. -/
def directories (index : Index) : Nat := index.countP fun entry => entry.2 = .dir

/-- The number of files. -/
def files (index : Index) : Nat := index.countP fun entry => entry.2 ≠ .dir

end Index

end StagedSandbox
