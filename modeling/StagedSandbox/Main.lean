import StagedSandbox.Cli.Session
import StagedSandbox.Wasm.Interpreter

/-!
# The program

Loads the files that a command may look at, carries the command out, and writes back the files
that it has changed. The decisions are all made in `Cli.run`. Modules run on the interpreter.
-/

namespace StagedSandbox.Cli

/-- The files of the host that a setup names. -/
def Setup.paths (s : Setup) : List String :=
  (s.tools.elim [] fun tools => [tools.1, tools.2]) ++ s.config.toList

/-- The files and directories of the host that a command may look at. -/
def Command.inputs : Command → List String
  | .pack mounts files => mounts.map Mount.host ++ [files.index, files.blob]
  | .inspect files => [files.index, files.blob]
  | .run source _ exportTo snapshot setup =>
    source :: exportTo.toList ++ (snapshot.elim [] fun files => [files.index, files.blob]) ++
      setup.paths
  | .format source setup => source :: setup.paths
  | .version setup => setup.paths

/-- The files of the host that a command may write. -/
def Command.outputs : Command → List String
  | .pack _ files => [files.index, files.blob]
  | .inspect _ | .version _ => []
  | .run _ _ exportTo _ _ => exportTo.toList
  | .format source _ => [source]

/-- Put what was found at a path into a tree. -/
def place (tree : HostTree) (text : String) (node : HostNode) : HostTree :=
  match Path.follow (HostTree.origin tree.start text) text, node with
  | [], .dir children => children.foldl (fun tree child => tree.put child.2 [child.1]) tree
  | place, .dir [] =>
    match tree.get? place with
    | some _ => tree
    | none => tree.put (.dir []) place
  | place, node => tree.put node place

/-- What stands at a path of the host, links being followed; nothing if it cannot be read. -/
partial def load? (text : String) : IO (Option HostNode) := do
  try
    let place ← IO.FS.realPath text
    if ← place.isDir then
      let entries ← place.readDir
      let children ← entries.toList.filterMapM fun entry => do
        return (← load? (text ++ "/" ++ entry.fileName)).map fun node => (entry.fileName, node)
      return some (.dir (Table.ofList children))
    else return some (.file (← IO.FS.readBinFile text))
  catch _ => return none

/-- What stands at a path of the host, without its content. -/
def glance? (text : String) : IO (Option HostNode) := do
  try
    let place ← IO.FS.realPath text
    return some (if ← place.isDir then .dir [] else .file ByteArray.empty)
  catch _ => return none

/-- The directory that a file is to lie in. -/
def parentText (text : String) : String := (HostPath.parents text).headD "."

/-- The part of the host's files that a command may look at. -/
def loadTree (i : Invocation) : IO HostTree := do
  let start := Path.follow [] (← IO.currentDir).toString
  let mut tree : HostTree := (HostTree.put {} (.dir []) start)
  tree := { tree with start }
  for text in i.logDir.toList ++ i.command.outputs.map parentText do
    if let some node ← glance? text then tree := place tree text node
  for text in i.command.inputs do
    if let some node ← load? text then tree := place tree text node
  return tree

/-- Write the files back that a command has changed, in directories that are made if needed. -/
def store (i : Invocation) (before after : HostTree) : IO Unit := do
  for text in i.logDir.toList do
    if let .ok (_, .dir _) := after.find text then IO.FS.createDirAll text
  for text in i.command.outputs do
    if let .ok content := after.read text then
      if (before.read text).toOption ≠ some content then
        IO.FS.createDirAll (parentText text)
        IO.FS.writeBinFile text content

/-- The bytes of a generator that is started from a seed and a name. -/
def entropyOf (seed : Nat) (name : String) : Entropy where
  byte i := UInt8.ofNat (stdNext (mkStdGen (seed + (hash (name, i)).toNat))).1

/-- The host of a run: the interpreter, and random bytes of the operating system's making. -/
def openHost : IO Host := do
  let seed := Bytes.ofLittleEndian (← IO.getRandomBytes 8).data.toList
  return ⟨Wasm.Engine.interpreter, entropyOf seed⟩

/-- Carry out a command line on the files of the host. -/
def runOnHost (arguments : List String) : IO UInt8 := do
  match Invocation.parse? arguments with
  | none =>
    IO.eprintln "usage: playbox [-v] [--log-dir DIR] snapshot|run|format|version ..."
    return usageStatus
  | some i =>
    let tree ← loadTree i
    let report := run (← openHost) arguments tree
    IO.print report.shown
    store i tree report.tree
    if let some complaint := report.complaint then IO.eprintln complaint
    return report.status

end StagedSandbox.Cli

def main (arguments : List String) : IO UInt32 := do
  return (← StagedSandbox.Cli.runOnHost arguments).toUInt32
