import StagedSandbox.Fs.Basic

/-!
# Walking a file system

All nodes of a file system in depth-first order: a directory comes before what it holds, and
names come in the order of the listing.
-/

namespace StagedSandbox

mutual

/-- A node and all nodes below it, with their paths. -/
def Node.walk (here : Path) : Node → List (Path × Node)
  | .file content => [(here, .file content)]
  | .dir children => (here, .dir children) :: Node.walkAll here children

/-- The children of a directory and all nodes below them, with their paths. -/
def Node.walkAll (here : Path) : List (String × Node) → List (Path × Node)
  | [] => []
  | (name, node) :: rest => node.walk (here ++ [name]) ++ Node.walkAll here rest

end

/-- All nodes below the root, with their paths. -/
def Fs.walk (fs : Fs) : List (Path × Node) := Node.walkAll [] fs

end StagedSandbox
