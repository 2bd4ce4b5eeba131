import StagedSandbox.Failure
import StagedSandbox.Stage.Signal
import StagedSandbox.Text.Blank
import StagedSandbox.Wasm.Engine

/-!
# What a stage runs

A stage runs a native program, or a module that is compiled beforehand, given as bytes, or read
from the file system when the stage starts. Modules are compiled and run by an engine.
-/

namespace StagedSandbox

/-- A native program with its name. -/
structure NativeTool where
  name : String
  program : Native Unit

/-- What a stage runs. -/
inductive StageSource where
  | native (tool : NativeTool)
  | compiled (module : Wasm.Module)
  | bytes (data : Bytes)
  | file (path : String)

namespace StageSource

/-- What a stage runs, in a few words. -/
def describe : StageSource → String
  | .native tool => "Native(" ++ Text.quoted '"' tool.name ++ ")"
  | .compiled _ => "Compiled"
  | .bytes data => "Bytes(" ++ Text.decimal data.size ++ ")"
  | .file path => "VfsPath(" ++ Text.quoted '"' path ++ ")"

/-- How the run of a stage ended. -/
structure Execution where
  signal : Signal
  /-- Where the module stopped, in the words of the engine. -/
  trace : Option String := none
  deriving DecidableEq, Repr

/-- How a module has ended whose call did not return. A backtrace that is blank is left out. -/
def Execution.ofError (e : Wasm.CallError) : Execution where
  signal :=
    match e.stop with
    | some stop => .ofStop stop
    | none => .faulted (.engine (e.trap.getD e.message))
  trace := e.backtrace.filter fun text => !(Text.trim text.toList).isEmpty

/-- Start a module on a guest. What it has done to the guest before it failed stays. -/
def startModule (module : Wasm.Module) (g : Guest) : Except HostFault Execution × Guest :=
  match module.instantiate g with
  | (.error message, g) => (.error (.engine message), g)
  | (.ok i, g) =>
    match i.entry with
    | .error message => (.error (.engine message), g)
    | .ok entry =>
      match entry g with
      | (.ok (), g) => (.ok { signal := .exited 0 }, g)
      | (.error e, g) => (.ok (.ofError e), g)

variable (engine : Wasm.Engine)

/-- The module of bytes. -/
def compile (data : Bytes) : Except HostFault Wasm.Module :=
  (engine.compile data).mapError .engine

/-- Compile a module that is given as bytes. -/
def precompile : StageSource → Except HostFault StageSource
  | .bytes data => (compile engine data).map .compiled
  | source => .ok source

/-- The module in a file. -/
def loadFile (fs : Fs) (path : String) : Except HostFault Wasm.Module :=
  match fs.query path Fs.read with
  | .ok data => compile engine data
  | .error e => .error (.cannotLoad path e)

/-- Run what a stage is to run on a guest. The guest comes back also if nothing could be run. -/
def start (source : StageSource) (g : Guest) : Except HostFault Execution × Guest :=
  match source with
  | .native tool =>
    let (signal, g) := tool.program.run g
    (.ok { signal }, g)
  | .compiled module => startModule module g
  | .bytes data =>
    match compile engine data with
    | .ok module => startModule module g
    | .error e => (.error e, g)
  | .file path =>
    match loadFile engine g.fs path with
    | .ok module => startModule module g
    | .error e => (.error e, g)

end StageSource

end StagedSandbox
