import StagedSandbox.Cli.Command
import StagedSandbox.Host.Tree
import StagedSandbox.Playground.Basic
import StagedSandbox.Playground.OptionsText

/-!
# Carrying out commands

A command works on the host's files and shows a transcript. What it has written stays, also when
it fails later. `Cli.run` turns a whole command line into a report: the status, what was shown,
and the files that are left. Programs run on what the host gives them.
-/

namespace StagedSandbox.Cli

/-- The files of the host, and what was shown so far. -/
structure Session where
  tree : HostTree
  console : Console := {}

/-- A step of a command. -/
abbrev Action (α : Type) := EStateM Failure Session α

/-! ### Steps -/

/-- Go on with a result, or fail. -/
def orFail {ε α : Type} (wrap : ε → Failure) : Except ε α → Action α
  | .ok a => return a
  | .error e => throw (wrap e)

/-- Ask about the files of the host. -/
def askHost {α : Type} (question : HostTree → Except OsError α) : Action α := do
  orFail .os (question (← get).tree)

/-- Change the files of the host. -/
def onHost (change : HostTree.Change) : Action Unit := fun s =>
  match change s.tree with
  | .ok _ tree => .ok () { s with tree }
  | .error e tree => .error (.os e) { s with tree }

/-- Do something that shows what it does. -/
def showing {α : Type} (f : Console → Except Failure α × Console) : Action α := fun s =>
  match f s.console with
  | (.ok a, console) => .ok a { s with console }
  | (.error e, console) => .error e { s with console }

/-- Show a line. -/
def showLine (text : String) : Action Unit :=
  modify fun s => { s with console := s.console.append (text ++ "\n") }

/-! ### Snapshots -/

/-- Write a snapshot. All directories are made first. -/
def writeSnapshot (s : Snapshot) (files : SnapshotFiles) : Action Unit := do
  onHost (HostTree.makeParents files.index)
  onHost (HostTree.makeParents files.blob)
  onHost (HostTree.write files.index (Bytes.ofText s.index.render))
  onHost (HostTree.write files.blob s.blob)

/-- Read a snapshot. -/
def readSnapshot (files : SnapshotFiles) : Action Snapshot := do
  let index ← askHost (·.read files.index)
  let blob ← askHost (·.read files.blob)
  orFail .corruptSnapshot (Snapshot.ofParts index blob)

/-- The size of a snapshot in words. -/
def sizeText (s : Snapshot) : String :=
  Text.decimal s.index.directories ++ " directories, " ++ Text.decimal s.index.files ++
    " files, " ++ Text.decimal s.blob.size ++ " blob bytes"

def pack (mounts : List Mount) (files : SnapshotFiles) : Action Unit := do
  let s ← orFail id (Snapshot.ofMounts (← get).tree mounts)
  writeSnapshot s files
  showLine ("wrote " ++ sizeText s)

def inspect (files : SnapshotFiles) : Action Unit := do
  let s ← readSnapshot files
  orFail .corruptSnapshot s.validate
  showLine (sizeText s)

/-! ### The playground -/

/-- The module in a file of the host. -/
def readModule (path : String) : Action StageSource := do
  let content ← orFail (fun e => .configuration (.unreadable path e)) ((← get).tree.read path)
  return .bytes content

variable (host : Host)

/-- The playground that a setup describes. -/
def playground (setup : Setup) : Action Playground := do
  let mut p : Playground := { host }
  if let some (compiler, linker) := setup.tools then
    let tools : Toolchain := ⟨← readModule compiler, ← readModule linker⟩
    p ← orFail .hostFault (p.withToolchain tools)
  if let some config := setup.config then
    let options ← orFail id (Options.read (← askHost (·.read config)))
    p ← orFail .configuration (p.withOptions options)
  return p

def runSource (path : String) (release : Bool) (exportTo : Option String)
    (snapshot : Option SnapshotFiles) (setup : Setup) : Action Unit := do
  let source ← askHost (·.readText path)
  let mut p ← playground host setup
  if let some files := snapshot then
    let s ← readSnapshot files
    p ← orFail .corruptSnapshot (p.withSnapshot s)
  let result ← showing (p.run source { release, execute := exportTo.isNone })
  if let (some path, some program) := (exportTo, result.artifact) then
    onHost (HostTree.write path program)
  orFail id result.outcome.result

def formatSource (path : String) (setup : Setup) : Action Unit := do
  let source ← askHost (·.readText path)
  let p ← playground host setup
  let formatted ← showing (p.format source)
  if formatted ≠ source then onHost (HostTree.write path (Bytes.ofText formatted))

def version (setup : Setup) : Action Unit := do
  let p ← playground host setup
  let outcome ← showing p.version
  orFail id outcome.result

/-! ### Command lines -/

/-- Carry out a command. -/
def perform : Command → Action Unit
  | .pack mounts files => pack mounts files
  | .inspect files => inspect files
  | .run source release exportTo snapshot setup =>
    runSource host source release exportTo snapshot setup
  | .format source setup => formatSource host source setup
  | .version setup => version host setup

/-- Carry out a command, in a log directory that is made if it is missing. -/
def invoke (i : Invocation) : Action Unit := do
  if let some dir := i.logDir then onHost (HostTree.makeDirs dir)
  perform host i.command

/-- The status that tells how a command ended. A status that does not fit a byte is told as one. -/
def exitStatus : Except Failure Unit → UInt8
  | .ok _ => 0
  | .error e =>
    let status := e.status.toInt
    if 0 < status ∧ status < 256 then UInt8.ofNat status.toNat else 1

/-- What is told about a failure. A stage that failed has told its own story. -/
def complaint? : Except Failure Unit → Option String
  | .ok _ => none
  | .error (.stageExit ..) => none
  | .error (.abnormalTermination ..) => none
  | .error e => some ("playbox: " ++ e.message)

/-- What a command line leaves. -/
structure Report where
  status : UInt8
  shown : String := ""
  complaint : Option String := none
  tree : HostTree

/-- The report of a command that has ended. -/
def Report.ofEnd (result : Except Failure Unit) (s : Session) : Report where
  status := exitStatus result
  shown := s.console.text
  complaint := complaint? result
  tree := s.tree

/-- The status of a command line that is refused. -/
def usageStatus : UInt8 := 2

/-- Carry out a command line. -/
def run (arguments : List String) (tree : HostTree) : Report :=
  match Invocation.parse? arguments with
  | none => { status := usageStatus, tree }
  | some i =>
    match invoke host i { tree } with
    | .ok _ s => Report.ofEnd (.ok ()) s
    | .error e s => Report.ofEnd (.error e) s

end StagedSandbox.Cli
