import StagedSandbox.Fs.Change
import StagedSandbox.Guest.Reply
import StagedSandbox.Text.Utf8

/-!
# Guests

A guest is a running program, seen as all that it can reach: the file system, its open
descriptors, its arguments and environment, and the console. The directories a program may see
are opened for it beforehand; every path it names is read beneath one of them, its scope, and may
not leave it.

Both output streams are decoded on their own. `Guest.finish` writes out what they still hold.
-/

namespace StagedSandbox

/-- A directory shown to a program: the path it sees, and the path in the file system. -/
structure Preopen where
  guest : String
  path : String
  deriving DecidableEq, Repr

/-- The whole file system, shown as it is. -/
def Preopen.root : Preopen := ⟨"/", "/"⟩

/-- What an open descriptor stands for. -/
inductive Descriptor where
  | stdin
  | stdout
  | stderr
  | preopen (guest path : Path)
  | dir (path scope : Path)
  | file (path : Path) (offset : UInt64) (append : Bool)
  deriving DecidableEq, Repr

/-- A source of random bytes: those that are still to come. -/
structure Entropy where
  byte : Nat → UInt8

namespace Entropy

/-- The source of zeros. -/
def zeros : Entropy := ⟨fun _ => 0⟩

/-- The next bytes, so many of them. -/
def take (e : Entropy) (n : Nat) : Bytes := Bytes.ofList ((List.range n).map e.byte)

/-- What is still to come after so many bytes. -/
def skip (e : Entropy) (n : Nat) : Entropy := ⟨fun i => e.byte (n + i)⟩

end Entropy

/-- The state of a running program. -/
structure Guest where
  fs : Fs
  descriptors : Table Nat Descriptor
  arguments : List String
  environment : List (String × String)
  /-- The beginning of a character that waits on the output stream. -/
  heldOut : List UInt8 := []
  /-- The beginning of a character that waits on the error stream. -/
  heldErr : List UInt8 := []
  entropy : Entropy
  console : Console

namespace Guest

/-- The preopened directories as descriptors; one whose paths are not absolute is skipped. -/
def preopened (preopens : List Preopen) : List Descriptor :=
  preopens.filterMap fun preopen =>
    match Path.parse? preopen.guest, Path.parse? preopen.path with
    | some guest, some path => some (.preopen guest path)
    | _, _ => none

/-- The descriptors a program starts with: the three streams, then the preopened directories. -/
def initialDescriptors (preopens : List Preopen) : Table Nat Descriptor :=
  (Descriptor.stdin :: .stdout :: .stderr :: preopened preopens).zipIdx.map fun entry =>
    (entry.2, entry.1)

/-- The guest of a program that is about to start. -/
def start (fs : Fs) (console : Console) (arguments : List String)
    (environment : List (String × String)) (preopens : List Preopen) (entropy : Entropy) : Guest :=
  { fs, console, arguments, environment, descriptors := initialDescriptors preopens, entropy }

/-- Write out what the output stream and then the error stream still hold. -/
def finish (p : Guest) : Guest :=
  { p with
    heldOut := []
    heldErr := []
    console := p.console.append
      (String.ofList (Text.Utf8.finish p.heldOut ++ Text.Utf8.finish p.heldErr)) }

/-- A step of a guest; what it leaves behind counts also when it fails. -/
abbrev Action (α : Type) := EStateM Errno Guest α

/-! ### Reaching the parts of a guest -/

/-- Change the file system. -/
def onFs {α : Type} (change : Fs.Change α) : Action α := fun p =>
  match change p.fs with
  | .ok a fs => .ok a { p with fs }
  | .error e fs => .error (.ofObstacle e) { p with fs }

/-- Ask about the file system. -/
def askFs {α : Type} (question : Fs → Except Obstacle α) : Action α := fun p =>
  match question p.fs with
  | .ok a => .ok a p
  | .error e => .error (.ofObstacle e) p

/-- What a descriptor stands for. -/
def descriptor (fd : Nat) : Action Descriptor := fun p =>
  match p.descriptors.get? fd with
  | some d => .ok d p
  | none => .error .badf p

/-- Change what an open descriptor stands for. -/
def setDescriptor (fd : Nat) (d : Descriptor) : Action Unit :=
  modify fun p => { p with descriptors := p.descriptors.set fd d }

/-- The path of an open directory, and the scope that paths beneath it may not leave. -/
def directory (fd : Nat) : Action (Path × Path) := do
  match ← descriptor fd with
  | .preopen _ path => return (path, path)
  | .dir path scope => return (path, scope)
  | _ => throw .notdir

/-- The path that a text denotes beneath an open directory, and its scope. -/
def locate (fd : Nat) (text : String) : Action (Path × Path) := do
  let (base, scope) ← directory fd
  let path := base.follow text
  if scope.isPrefixOf path then return (path, scope) else throw .notcapable

/-- The lowest number from 3 on that is not open. -/
def lowestFree (descriptors : Table Nat Descriptor) : Option Nat :=
  (List.range' 3 (descriptors.length + 1)).find? fun fd => !descriptors.contains fd

/-- Open a descriptor at the lowest free number that fits a word of 32 bits. -/
def allocate (d : Descriptor) : Action Nat := do
  match lowestFree (← get).descriptors with
  | some fd =>
    if fd < UInt32.size then
      modify fun p => { p with descriptors := p.descriptors.insert fd d }
      return fd
    else throw .mfile
  | none => throw .mfile

/-- The preopened directories that are still open, with the paths a program sees. -/
def preopens (p : Guest) : List (Nat × Path) :=
  p.descriptors.filterMap fun entry =>
    match entry.2 with
    | .preopen guest _ => some (entry.1, guest)
    | _ => none

/-- Write to the output stream. -/
def writeOut (data : Bytes) : Action Unit :=
  modify fun p =>
    let (text, held) := Text.Utf8.decode p.heldOut data.list
    { p with heldOut := held, console := p.console.append (String.ofList text) }

/-- Write to the error stream. -/
def writeErr (data : Bytes) : Action Unit :=
  modify fun p =>
    let (text, held) := Text.Utf8.decode p.heldErr data.list
    { p with heldErr := held, console := p.console.append (String.ofList text) }

end Guest

end StagedSandbox
