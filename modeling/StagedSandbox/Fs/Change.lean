import StagedSandbox.Fs.Basic

/-!
# Changing a file system

A change runs on the content of a directory and leaves a content behind, whether it succeeds or
is refused. `Fs.within` runs a change in the directory at a path and puts back what it leaves;
all changes of one name are made of it. No file grows beyond `Fs.maxFileSize`.
-/

namespace StagedSandbox

/-- A change of the content of a directory. -/
abbrev Fs.Change (α : Type) := EStateM Obstacle Fs α

/-- How new content joins the old. -/
inductive WriteMode where
  | append
  | overwrite
  deriving DecidableEq, Repr

namespace Fs

/-- The most bytes that a file may hold. -/
def maxFileSize : Nat := 1 <<< 30

/-- Refuse a file that would have to reach this size. -/
def checkSize (size : Nat) : Change Unit :=
  if size ≤ maxFileSize then pure () else throw .tooLarge

/-- Run a change in the directory at a path. -/
def within {α : Type} (change : Change α) : Path → Change α
  | [] => change
  | name :: rest => fun fs =>
    match fs.get? name with
    | none => .error .notFound fs
    | some (.file _) => .error .notDirectory fs
    | some (.dir children) =>
      match within change rest children with
      | .ok a left => .ok a (fs.set name (.dir left))
      | .error e left => .error e (fs.set name (.dir left))

/-- Run a change of one name in the directory that holds it; the root is held by none. -/
def atParent {α : Type} (path : Path) (change : String → Change α) : Change α :=
  match path.getLast? with
  | none => throw .invalidPath
  | some name => within (change name) path.dropLast

/-- Make the directories of a path that are missing. -/
def makeDirs : Path → Change Unit
  | [] => pure ()
  | name :: rest => fun fs =>
    match fs.get? name with
    | some (.file _) => .error .notDirectory fs
    | some (.dir children) =>
      match makeDirs rest children with
      | .ok a left => .ok a (fs.set name (.dir left))
      | .error e left => .error e (fs.set name (.dir left))
    | none =>
      match makeDirs rest [] with
      | .ok a left => .ok a (fs.insert name (.dir left))
      | .error e left => .error e (fs.insert name (.dir left))

/-- Make one directory, in a directory that exists. -/
def makeDir (path : Path) : Change Unit :=
  atParent path fun name => do
    if (← get).contains name then throw .alreadyExists
    modify (·.insert name (.dir []))

/-- Give a file new content, making it if it is missing. -/
def write (path : Path) (data : Bytes) (mode : WriteMode) : Change Unit :=
  atParent path fun name => do
    match (← get).get? name with
    | some (.dir _) => throw .isDirectory
    | some (.file old) =>
      match mode with
      | .overwrite =>
        checkSize data.size
        modify (·.set name (.file data))
      | .append =>
        checkSize (old.size + data.size)
        modify (·.set name (.file (old ++ data)))
    | none =>
      checkSize data.size
      modify (·.insert name (.file data))

/-- Put a file of any size at a path, in the place of a file that stands there. -/
def place (path : Path) (data : Bytes) : Change Unit :=
  atParent path fun name => do
    if let some (.dir _) := (← get).get? name then throw .isDirectory
    modify (·.insert name (.file data))

/-- Edit the content of a file that exists. -/
def edit (path : Path) (change : Bytes → Bytes) : Change Unit :=
  atParent path fun name => do
    match (← get).get? name with
    | some (.file old) => modify (·.set name (.file (change old)))
    | some (.dir _) => throw .isDirectory
    | none => throw .notFound

/-- Lay bytes over a file from a position on. The size is refused before the file is looked up. -/
def writeAt (path : Path) (start : Nat) (data : Bytes) : Change Unit := do
  checkSize (start + data.size)
  edit path fun old => old.overlay start data

/-- Cut a file, or fill it up with zeros. The size is refused before the file is looked up. -/
def truncate (path : Path) (size : Nat) : Change Unit := do
  checkSize size
  edit path fun old => old.resize size

/-- Remove a file. -/
def removeFile (path : Path) : Change Unit :=
  atParent path fun name => do
    match (← get).get? name with
    | some (.file _) => modify (·.erase name)
    | some (.dir _) => throw .isDirectory
    | none => throw .notFound

/-- Remove an empty directory. -/
def removeDir (path : Path) : Change Unit :=
  atParent path fun name => do
    match (← get).get? name with
    | some (.dir []) => modify (·.erase name)
    | some (.dir _) => throw .notEmpty
    | some (.file _) => throw .notDirectory
    | none => throw .notFound

/-- Take the node of a name out of a directory. -/
def detach (name : String) : Change Node := do
  match (← get).get? name with
  | some node =>
    modify (·.erase name)
    return node
  | none => throw .notFound

/-- Put a node under a name into a directory. -/
def attach (name : String) (node : Node) : Change Unit := modify (·.insert name node)

/-- Whether a node may take the place of what stands at the goal of a move. -/
def checkGoal (movesDir : Bool) (goal : Option Node) : Except Obstacle Unit :=
  match goal, movesDir with
  | some (.dir (_ :: _)), true => .error .notEmpty
  | some (.dir _), false => .error .isDirectory
  | some (.file _), true => .error .notDirectory
  | _, _ => .ok ()

/-- Speak of an obstacle as met at a path. -/
def atPath {α : Type} (path : Path) (change : Change α) : EStateM FsError Fs α :=
  change.adaptExcept (⟨·, path.render⟩)

/-- Answer a question about the file system, or refuse. -/
def ask {α : Type} (question : Fs → Except Obstacle α) : Change α := fun fs =>
  match question fs with
  | .ok a => .ok a fs
  | .error e => .error e fs

/-- Move the node at `source`, with all below it, to `goal`. -/
def move (source goal : Path) : EStateM FsError Fs Unit := do
  if source = [] ∨ goal = [] then throw ⟨.invalidPath, Path.render source⟩
  let movesDir := (← atPath source (ask (stat · source))).isDirectory
  if source = goal then return
  if source.isPrefixOf goal then throw ⟨.invalidPath, Path.render goal⟩
  let holder ← atPath goal.dropLast (ask (stat · goal.dropLast))
  if !holder.isDirectory then throw ⟨.notDirectory, Path.render goal⟩
  atPath goal (ask fun fs => checkGoal movesDir (fs.lookup goal))
  let node ← atPath source (atParent source detach)
  atPath goal (atParent goal fun name => attach name node)

/-! ### Paths given as text -/

/-- Speak of an obstacle as met at the path that a text denotes. -/
def atText {α : Type} (text : String) (change : Change α) : EStateM FsError Fs α :=
  change.adaptExcept (⟨·, text⟩)

/-- Change what stands at the path that a text denotes. -/
def changeAt {α : Type} (text : String) (change : Path → Change α) : EStateM FsError Fs α :=
  atText text <|
    match Path.parse? text with
    | none => throw .invalidPath
    | some path => change path

/-- Lay bytes over the file that a text denotes. The size is refused before the text is read. -/
def writeAtText (text : String) (start : Nat) (data : Bytes) : EStateM FsError Fs Unit := do
  atText text (checkSize (start + data.size))
  changeAt text (edit · (·.overlay start data))

/-- Cut the file that a text denotes, or fill it up with zeros. The size is refused before the
text is read. -/
def truncateText (text : String) (size : Nat) : EStateM FsError Fs Unit := do
  atText text (checkSize size)
  changeAt text (edit · (·.resize size))

/-- Move between the paths that two texts denote; errors speak of the normalized texts. -/
def moveText (source goal : String) : EStateM FsError Fs Unit :=
  match Path.parse? source, Path.parse? goal with
  | none, _ => throw ⟨.invalidPath, source⟩
  | _, none => throw ⟨.invalidPath, goal⟩
  | some source, some goal => move source goal

end Fs

end StagedSandbox
