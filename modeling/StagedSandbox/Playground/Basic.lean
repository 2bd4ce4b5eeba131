import StagedSandbox.Playground.Options
import StagedSandbox.Snapshot.Basic
import StagedSandbox.Stage.Pipeline
import StagedSandbox.Tool.Compiler
import StagedSandbox.Tool.Linker

/-!
# The playground

A playground compiles, links and runs programs. Each request works on a copy of a template file
system, so that nothing it writes is seen by the next one.
-/

namespace StagedSandbox

/-- What compiles and what links. -/
structure Toolchain where
  compiler : StageSource
  linker : StageSource

namespace Toolchain

/-- The native compiler and linker. -/
def native : Toolchain where
  compiler := .native ⟨"crystal", Tool.Compiler.program⟩
  linker := .native ⟨"wasm-ld", Tool.Linker.program⟩

/-- Compile the modules that are given as bytes. -/
def precompile (engine : Wasm.Engine) (t : Toolchain) : Except HostFault Toolchain := do
  return ⟨← t.compiler.precompile engine, ← t.linker.precompile engine⟩

end Toolchain

/-- What a playground takes from its host: an engine for modules, and random bytes for each of its
stages by name. -/
structure Host where
  engine : Wasm.Engine
  entropy : String → Entropy

structure Playground where
  host : Host
  toolchain : Toolchain := .native
  template : Fs := []
  options : Options := {}

/-- What is asked of a run. -/
structure RunRequest where
  release : Bool := false
  /-- Whether the linked program is run, or handed back instead. -/
  execute : Bool := true
  deriving DecidableEq, Repr

/-- What a run hands back. -/
structure RunResult where
  outcome : RunOutcome
  /-- The linked program, if it was asked for and could be linked. -/
  artifact : Option Bytes
  stages : List StageReport

namespace Playground

/-! ### Setting up -/

/-- Take the files of a sound snapshot as the template. -/
def withSnapshot (p : Playground) (s : Snapshot) : Except Corruption Playground := do
  s.validate
  return { p with template := ← s.load }

/-- Take other tools, with their modules compiled. -/
def withToolchain (p : Playground) (t : Toolchain) : Except HostFault Playground := do
  return { p with toolchain := ← t.precompile p.host.engine }

/-- Take other options, in their normal form. -/
def withOptions (p : Playground) (o : Options) : Except Misconfiguration Playground := do
  return { p with options := ← o.sanitize }

/-! ### Seeding -/

/-- Write a file, and make the directories it lies in. -/
def writeSeed (path : String) (data : Bytes) : EStateM FsError Fs Unit := do
  if let some parent := Path.parentText? path then Fs.changeAt parent Fs.makeDirs
  Fs.changeAt path (Fs.write · data .overwrite)

/-- Write the source, and then the empty seed files. -/
def writeSeeds (p : Playground) (source : String) : EStateM FsError Fs Unit := do
  writeSeed p.options.sourcePath (Bytes.ofText source)
  p.options.seedFiles.forM fun path => writeSeed path ByteArray.empty

/-- The file system that a change leaves. -/
def outcome (change : EStateM FsError Fs Unit) (fs : Fs) : Except Failure Fs :=
  match change fs with
  | .ok _ fs => .ok fs
  | .error e _ => .error (.fileSystem e)

/-- The file system on which a run starts. -/
def seeded (p : Playground) (source : String) : Except Failure Fs :=
  outcome (p.writeSeeds source) p.template

/-! ### Stages -/

/-- A stage that sees the whole file system. -/
def stage (p : Playground) (name : String) (source : StageSource) (arguments : List String)
    (environment : Table String String) : Stage :=
  { name, source, arguments, environment, preopens := [Preopen.root]
    entropy := p.host.entropy name }

def compileStage (p : Playground) (release : Bool) : Stage :=
  p.stage "compile" p.toolchain.compiler
    ([p.options.compilerProgram, "build", p.options.sourcePath, "--cross-compile", "--prelude",
      "empty"] ++ if release then ["--release"] else [])
    [(p.options.libraryEnv, p.options.libraryRoot)]

def linkStage (p : Playground) : Stage :=
  p.stage "link" p.toolchain.linker
    ([p.options.linkerProgram, p.options.objectPath, "-o", p.options.programPath] ++
      p.options.runtimeObjects)
    []

def runStage (p : Playground) : Stage :=
  p.stage "run" (.file p.options.programPath) [p.options.programPath] []

/-- The stages of a run. -/
def stages (p : Playground) (request : RunRequest) : List Stage :=
  [p.compileStage request.release, p.linkStage] ++ if request.execute then [p.runStage] else []

/-! ### Requests -/

/-- The line that announces a program that is handed back. -/
def downloadLine (p : Playground) : String := "$ download " ++ p.options.programPath ++ "\n"

/-- Hand back the program that was linked. -/
def download (p : Playground) (report : RunReport) (console : Console) :
    Except Failure RunResult × Console :=
  let console := console.append p.downloadLine
  match report.fs.query p.options.programPath Fs.read with
  | .ok program => (.ok ⟨report.outcome, some program, report.stages⟩, console)
  | .error e => (.error (.fileSystem e), console)

/-- Compile and link a source, and run the program or hand it back. -/
def run (p : Playground) (source : String) (request : RunRequest) (console : Console) :
    Except Failure RunResult × Console :=
  match p.seeded source with
  | .error e => (.error e, console)
  | .ok fs =>
    match Pipeline.run p.host.engine fs console (p.stages request) with
    | (.error fault, console) => (.error (.hostFault fault), console)
    | (.ok report, console) =>
      if !request.execute && report.outcome.isSuccess then p.download report console
      else (.ok ⟨report.outcome, none, report.stages⟩, console)

/-- Ask the compiler for its version, on an empty file system. -/
def version (p : Playground) (console : Console) : Except Failure RunOutcome × Console :=
  let s := p.stage "version" p.toolchain.compiler [p.options.compilerProgram, "--version"] []
  match Pipeline.run p.host.engine [] console [s] with
  | (.error fault, console) => (.error (.hostFault fault), console)
  | (.ok report, console) => (.ok report.outcome, console)

/-- The text of the source that a run of the formatter leaves. -/
def formatted (p : Playground) (report : RunReport) : Except Failure String := do
  report.outcome.result
  (report.fs.query p.options.sourcePath Fs.readText).mapError .fileSystem

/-- Let the compiler format a source. -/
def format (p : Playground) (source : String) (console : Console) :
    Except Failure String × Console :=
  match outcome (writeSeed p.options.sourcePath (Bytes.ofText source)) [] with
  | .error e => (.error e, console)
  | .ok fs =>
    let s := p.stage "format" p.toolchain.compiler
      [p.options.compilerProgram, "tool", "format", p.options.sourcePath] []
    match Pipeline.run p.host.engine fs console [s] with
    | (.error fault, console) => (.error (.hostFault fault), console)
    | (.ok report, console) => (p.formatted report, console)

end Playground

end StagedSandbox
