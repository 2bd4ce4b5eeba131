import StagedSandbox.Bytes
import StagedSandbox.Host.OsError
import StagedSandbox.Host.PathText
import StagedSandbox.Table

/-!
# Files of the host

The files that a command finds around it: a tree of files, directories and symbolic links, and the
directory that the command is started in. A path given as text is followed name by name, and
through each link it meets. A file is made where a path leads to; a directory is made in the
directory that the path without its last name leads to.
-/

namespace StagedSandbox

inductive HostNode where
  | file (content : Bytes)
  | link (target : String)
  | dir (children : List (String × HostNode))

/-- The content of a directory. -/
abbrev HostDir := Table String HostNode

namespace HostDir

/-- The node at a place below a directory, links not being followed. -/
def get? (here : HostDir) : Path → Option HostNode
  | [] => some (.dir here)
  | name :: rest =>
    match Table.get? here name with
    | some (.dir children) => get? children rest
    | some node => if rest = [] then some node else none
    | none => none

/-- Put a node at a place, in directories that are made if they are missing. -/
def put (here : HostDir) (node : HostNode) : Path → HostDir
  | [] => here
  | [name] => Table.insert here name node
  | name :: rest =>
    match Table.get? here name with
    | some (.dir children) => Table.insert here name (.dir (put children node rest))
    | _ => Table.insert here name (.dir (put [] node rest))

end HostDir

structure HostTree where
  root : HostDir := []
  /-- The directory that relative paths are followed from. -/
  start : Path := []

namespace HostTree

/-- The node at a place, links not being followed. -/
def get? (tree : HostTree) (place : Path) : Option HostNode := tree.root.get? place

/-- Put a node at a place. -/
def put (tree : HostTree) (node : HostNode) (place : Path) : HostTree :=
  { tree with root := tree.root.put node place }

/-! ### Where a path leads -/

/-- The most links that are followed on the way to one file. -/
def maxLinks : Nat := 40

/-- The most bytes in a name. -/
def maxNameSize : Nat := 255

/-- The most bytes in a path. -/
def maxPathSize : Nat := 4095

/-- The directory that a text is followed from; `here` if it is relative. -/
def origin (here : Path) (text : String) : Path := if Path.isAbsolute text then [] else here

/-- What a path is followed for. -/
inductive Purpose where
  /-- To find what is there. -/
  | find
  /-- To write a file, also one that is missing. A slash after its name is not allowed. -/
  | write
  deriving DecidableEq, Repr

/-- Follow parts of a path from a place. Answers the place reached and what stands there; only the
last name may be missing. -/
def follow (tree : HostTree) (purpose : Purpose) (links : Nat) (here : Path) :
    List String → Except OsError (Path × Option HostNode)
  | [] => .ok (here, tree.get? here)
  | part :: rest =>
    match tree.get? here with
    | some (.dir _) =>
      if HostPath.isIdle part then follow tree purpose links here rest
      else if part = ".." then follow tree purpose links here.dropLast rest
      else if purpose = .write ∧ rest ≠ [] ∧ ∀ part ∈ rest, part = "" then .error .isDirectory
      else if maxNameSize < part.utf8ByteSize then .error .nameTooLong
      else
        match tree.get? (here ++ [part]) with
        | none => if rest = [] then .ok (here ++ [part], none) else .error .notFound
        | some (.link target) =>
          match links with
          | 0 => .error .tooManyLinks
          | links + 1 =>
            follow tree purpose links (origin here target) (Path.parts target ++ rest)
        | some _ => follow tree purpose links (here ++ [part]) rest
    | _ => .error .notDirectory
termination_by parts => (links, parts.length)

/-- A path that the host looks at: one that is not empty, and not too long. -/
def accept (text : String) : Except OsError Unit :=
  if text = "" then .error .notFound
  else if maxPathSize < text.utf8ByteSize then .error .nameTooLong
  else .ok ()

/-- The place that a path leads to, and what stands there. -/
def locate (tree : HostTree) (purpose : Purpose) (text : String) :
    Except OsError (Path × Option HostNode) := do
  accept text
  tree.follow purpose maxLinks (origin tree.start text) (Path.parts text)

/-- The node that a path leads to, and its place. -/
def find (tree : HostTree) (text : String) : Except OsError (Path × HostNode) := do
  match ← tree.locate .find text with
  | (place, some node) => .ok (place, node)
  | (_, none) => .error .notFound

/-- Whether a path leads to a directory. -/
def isDir (tree : HostTree) (text : String) : Bool :=
  match tree.find text with
  | .ok (_, .dir _) => true
  | _ => false

/-! ### Reading -/

/-- The content of the file that a path leads to. -/
def read (tree : HostTree) (text : String) : Except OsError Bytes := do
  match (← tree.find text).2 with
  | .file content => .ok content
  | _ => .error .isDirectory

/-- The text of the file that a path leads to. -/
def readText (tree : HostTree) (text : String) : Except OsError String := do
  match (← tree.read text).text? with
  | some content => .ok content
  | none => .error .invalidText

/-! ### Writing -/

/-- A change of the host's files. What was changed before a refusal stays changed. -/
abbrev Change := EStateM OsError HostTree Unit

/-- Put a node at the place that is worked out from the tree. -/
def putAt (node : HostNode) (place? : HostTree → Except OsError Path) : Change := fun tree =>
  match place? tree with
  | .ok place => .ok () (tree.put node place)
  | .error e => .error e tree

/-- The place at which a file is written. -/
def filePlace (text : String) (tree : HostTree) : Except OsError Path := do
  match ← tree.locate .write text with
  | (_, some (.dir _)) => .error .isDirectory
  | (place, _) => .ok place

/-- Write a file, in a directory that exists. -/
def write (text : String) (content : Bytes) : Change := putAt (.file content) (filePlace text)

/-- The place at which a directory or a link is made: where nothing stands yet, not even a
link. -/
def newPlace (text : String) (tree : HostTree) : Except OsError Path := do
  accept text
  match (Path.parts text).reverse.dropWhile (· = "") with
  | [] => .error .alreadyExists
  | name :: before =>
    let (above, _) ← tree.follow .find maxLinks (origin tree.start text) (before.reverse ++ [""])
    if name = "." ∨ name = ".." then .error .alreadyExists
    else if maxNameSize < name.utf8ByteSize then .error .nameTooLong
    else if (tree.get? (above ++ [name])).isSome then .error .alreadyExists
    else .ok (above ++ [name])

/-- Make a directory, unless it is there already. -/
def makeDir (text : String) : Change :=
  tryCatch (putAt (.dir []) (newPlace text)) fun e => do
    if e = .alreadyExists ∧ (← get).isDir text then return
    else throw e

/-- Make a directory, the innermost of a list; those it lies in are made if it cannot be made
without them. -/
def makeDirsOf : List String → Change
  | [] => return
  | text :: above =>
    tryCatch (makeDir text) fun e => do
      if e ≠ .notFound then throw e
      makeDirsOf above
      makeDir text

/-- Make a directory and those it lies in, as far as they are missing. -/
def makeDirs (text : String) : Change :=
  if text = "" then return else makeDirsOf (text :: HostPath.parents text)

/-- Make the directories that a file is to lie in, as far as they are missing. -/
def makeParents (text : String) : Change := makeDirsOf (HostPath.parents text)

end HostTree

end StagedSandbox
