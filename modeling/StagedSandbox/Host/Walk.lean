import StagedSandbox.Failure
import StagedSandbox.Host.Tree

/-!
# Walking the host's files

All files and directories below a path of the host, links being followed: a directory comes
before what it holds. A link that leads nowhere, or back to a directory it lies in, stops the
walk, and so does a path that has become too long on the way.
-/

namespace StagedSandbox.HostTree

mutual

/-- The number of nodes in a node. -/
def size : HostNode → Nat
  | .dir children => sizeAll children + 1
  | _ => 1

/-- The number of nodes in the children of a directory. -/
def sizeAll : List (String × HostNode) → Nat
  | [] => 0
  | (_, node) :: rest => size node + sizeAll rest

end

/-- The directories that a walk is in: their places, and the texts that led there. -/
abbrev Trail := List (Path × String)

/-- The directory of a trail at a place. -/
def ancestorAt? (trail : Trail) (place : Path) : Option String :=
  (trail.find? fun step => step.1 = place).map Prod.snd

/-- Follow a path that leads to a link. -/
def settle (tree : HostTree) (trail : Trail) (text : String) (here : Path) (node : HostNode) :
    Except WalkError (Path × HostNode) :=
  match node with
  | .link _ =>
    match tree.find text with
    | .error e => .error (.os text e)
    | .ok (place, .dir children) =>
      match ancestorAt? trail place with
      | some ancestor => .error (.loop text ancestor)
      | none => .ok (place, .dir children)
    | .ok found => .ok found
  | node => .ok (here, node)

mutual

/-- Walk a node at a place. The depth bounds the directories on the way. -/
def walkNode (tree : HostTree) (trail : Trail) (text : String) (relative here : Path)
    (node : HostNode) (depth : Nat) : Except WalkError (List (Path × Option Bytes)) := do
  let (place, node) ← tree.settle trail text here node
  match node, depth with
  | .dir children, depth + 1 =>
    (accept text).mapError (.os text)
    let below ← walkChildren tree ((place, text) :: trail) text relative place children depth
    return (relative, none) :: below
  | .file content, _ =>
    (accept text).mapError (.unreadable text)
    return [(relative, some content)]
  | _, _ => throw (.os text .tooManyLinks)
termination_by (depth, 0)

/-- Walk the children of a directory. -/
def walkChildren (tree : HostTree) (trail : Trail) (text : String) (relative place : Path)
    (children : List (String × HostNode)) (depth : Nat) :
    Except WalkError (List (Path × Option Bytes)) := do
  match children with
  | [] => return []
  | (name, node) :: rest =>
    let first ← walkNode tree trail (HostPath.join text name) (relative ++ [name]) (place ++ [name])
      node depth
    return first ++ (← walkChildren tree trail text relative place rest depth)
termination_by (depth, children.length + 1)

end

/-- All directories and files below a path, with their paths relative to it. -/
def walk (tree : HostTree) (text : String) : Except WalkError (List (Path × Option Bytes)) :=
  match tree.find text with
  | .error e => .error (.os text e)
  | .ok (place, node) => tree.walkNode [] text [] place node
      ((sizeAll tree.root + 1) * (sizeAll tree.root + 1))

end StagedSandbox.HostTree
