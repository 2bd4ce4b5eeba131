import StagedSandbox.Bytes
import StagedSandbox.Path
import StagedSandbox.Table

/-!
# File systems

A file system is the content of its root directory: a table of names and nodes, a node being a
file or again a directory. `Fs.lookup` is the view under which all operations are described: it
sends a path to the node that stands there, if any.
-/

namespace StagedSandbox

/-- A file with its content, or a directory with its named children. -/
inductive Node where
  | file (content : Bytes)
  | dir (children : List (String × Node))

/-- The content of a directory, that of the root for a whole file system. -/
abbrev Fs := Table String Node

/-- What stands in the way of an operation. -/
inductive Obstacle where
  | notFound
  | isDirectory
  | notDirectory
  | alreadyExists
  | notEmpty
  | invalidPath
  | invalidData
  | tooLarge
  deriving DecidableEq, Repr

/-- A refused operation: the obstacle, and the path it was met at. -/
structure FsError where
  obstacle : Obstacle
  path : String
  deriving DecidableEq, Repr

def FsError.message (e : FsError) : String :=
  match e.obstacle with
  | .notFound => "no such file or directory: " ++ e.path
  | .isDirectory => "is a directory: " ++ e.path
  | .notDirectory => "not a directory: " ++ e.path
  | .alreadyExists => "file exists: " ++ e.path
  | .notEmpty => "directory not empty: " ++ e.path
  | .invalidPath => "invalid path: " ++ e.path
  | .invalidData => "invalid UTF-8 in " ++ e.path
  | .tooLarge => "file too large: " ++ e.path

/-- Whether a node is a directory. -/
def Node.isDir : Node → Bool
  | .dir _ => true
  | .file _ => false

/-- What is known about a node without opening it. -/
structure Metadata where
  isDirectory : Bool
  /-- The number of bytes of a file, zero for a directory. -/
  length : Nat
  deriving DecidableEq, Repr

def Node.metadata : Node → Metadata
  | .file content => ⟨false, content.size⟩
  | .dir _ => ⟨true, 0⟩

namespace Fs

/-- The node at a path. -/
def lookup (fs : Fs) : Path → Option Node
  | [] => some (.dir fs)
  | [name] => fs.get? name
  | name :: rest =>
    match fs.get? name with
    | some (.dir children) => lookup children rest
    | _ => none

/-- The node at a path, or why there is none: a missing name, or a file where the path goes on. -/
def find (fs : Fs) : Path → Except Obstacle Node
  | [] => .ok (.dir fs)
  | name :: rest =>
    match fs.get? name with
    | none => .error .notFound
    | some (.dir children) => find children rest
    | some (.file content) => if rest = [] then .ok (.file content) else .error .notDirectory

/-- The content of the file at a path. -/
def read (fs : Fs) (path : Path) : Except Obstacle Bytes := do
  match ← fs.find path with
  | .file content => .ok content
  | .dir _ => .error .isDirectory

/-- The content of the file at a path, as text. -/
def readText (fs : Fs) (path : Path) : Except Obstacle String := do
  match (← fs.read path).text? with
  | some text => .ok text
  | none => .error .invalidData

/-- At most `length` bytes of the file at a path, from position `start` on. -/
def readAt (fs : Fs) (path : Path) (start length : Nat) : Except Obstacle Bytes := do
  return (← fs.read path).slice start length

/-- What is known about the node at a path. -/
def stat (fs : Fs) (path : Path) : Except Obstacle Metadata := do
  return (← fs.find path).metadata

/-- The names in the directory at a path. -/
def list (fs : Fs) (path : Path) : Except Obstacle (List String) := do
  match ← fs.find path with
  | .dir children => .ok (Table.keys children)
  | .file _ => .error .notDirectory

/-- Ask about the path that a text denotes; errors speak of the text. -/
def query {α : Type} (fs : Fs) (text : String) (ask : Fs → Path → Except Obstacle α) :
    Except FsError α :=
  match Path.parse? text with
  | none => .error ⟨.invalidPath, text⟩
  | some path => (ask fs path).mapError (⟨·, text⟩)

/-- Whether a text denotes a path at which something stands. -/
def existsAt (fs : Fs) (text : String) : Bool := (fs.query text find).toBool

/-! ### Laws -/

@[simp] theorem lookup_nil (fs : Fs) : fs.lookup [] = some (.dir fs) := rfl

theorem lookup_singleton (fs : Fs) (name : String) : fs.lookup [name] = fs.get? name := rfl

theorem lookup_cons (fs : Fs) (name : String) (rest : Path) :
    fs.lookup (name :: rest) =
      match fs.get? name with
      | some (.dir children) => lookup children rest
      | some (.file content) => if rest = [] then some (.file content) else none
      | none => none := by
  cases rest with
  | nil =>
    cases h : fs.get? name with
    | none => simp [lookup, h]
    | some node => cases node <;> simp [lookup, h]
  | cons next rest =>
    cases h : fs.get? name with
    | none => simp [lookup, h]
    | some node => cases node <;> simp [lookup, h]

/-- Finding answers with the node in view. -/
theorem toOption_find (fs : Fs) (path : Path) : (fs.find path).toOption = fs.lookup path := by
  induction path generalizing fs with
  | nil => rfl
  | cons name rest ih =>
    rw [lookup_cons]
    cases h : fs.get? name with
    | none => simp [find, h, Except.toOption]
    | some node =>
      cases node with
      | dir children => simp [find, h, ih]
      | file content => by_cases hr : rest = [] <;> simp [find, h, hr, Except.toOption]

theorem find_eq_ok_iff {fs : Fs} {path : Path} {node : Node} :
    fs.find path = .ok node ↔ fs.lookup path = some node := by
  rw [← toOption_find]
  cases fs.find path <;> simp [Except.toOption]

end Fs

end StagedSandbox
