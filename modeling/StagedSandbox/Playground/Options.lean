import StagedSandbox.Failure
import StagedSandbox.Text.Blank

/-!
# Options of the playground

Which files a program is written to and linked with, and what the tools are called. Every option
has a default. `Options.sanitize` brings all paths into their normal form and refuses options
that cannot work.
-/

namespace StagedSandbox

structure Options where
  /-- Where the source is written. -/
  sourcePath : String := "/code.cr"
  /-- Where the linked program is written. -/
  programPath : String := "/program.wasm"
  compilerProgram : String := "crystal"
  linkerProgram : String := "wasm-ld"
  /-- The environment variable that names the root of the compiler's library. -/
  libraryEnv : String := "CRYSTAL_PATH"
  libraryRoot : String := "/crystal/src"
  /-- Objects that every program is linked with. -/
  runtimeObjects : List String := ["/lib/wasm32-wasi/crt1.o", "/lib/wasm32-wasi/libc.a"]
  /-- Empty files that are made before each run. -/
  seedFiles : List String := ["/dev/zero"]
  deriving DecidableEq, Repr

/-- A single option. -/
inductive Setting where
  | sourcePath
  | programPath
  | compilerProgram
  | linkerProgram
  | libraryEnv
  | libraryRoot
  | runtimeObjects
  | seedFiles
  deriving DecidableEq, Repr

/-- The name of an option. -/
def Setting.name : Setting → String
  | .sourcePath => "source_path"
  | .programPath => "program_path"
  | .compilerProgram => "compiler_program"
  | .linkerProgram => "linker_program"
  | .libraryEnv => "library_env"
  | .libraryRoot => "library_root"
  | .runtimeObjects => "runtime_objects"
  | .seedFiles => "seed_files"

namespace Options

/-- Where the compiler writes the object file. -/
def objectPath (o : Options) : String := Path.withExtension o.sourcePath "wasm"

/-- The normal form of a path that an option gives. -/
def absolute (setting : Setting) (text : String) : Except Misconfiguration String :=
  match Path.normalize? text with
  | some path => .ok path
  | none => .error (.relativePath setting.name text)

/-- Refuse an option that is blank. -/
def checkNotBlank (setting : Setting) (text : String) : Except Misconfiguration Unit :=
  if (Text.trim text.toList).isEmpty then .error (.blank setting.name) else .ok ()

/-- Bring all paths into their normal form, and refuse options that cannot work. -/
def sanitize (o : Options) : Except Misconfiguration Options := do
  let sourcePath ← absolute .sourcePath o.sourcePath
  let programPath ← absolute .programPath o.programPath
  let libraryRoot ← absolute .libraryRoot o.libraryRoot
  let runtimeObjects ← o.runtimeObjects.mapM (absolute .runtimeObjects)
  let seedFiles ← o.seedFiles.mapM (absolute .seedFiles)
  checkNotBlank .compilerProgram o.compilerProgram
  checkNotBlank .linkerProgram o.linkerProgram
  checkNotBlank .libraryEnv o.libraryEnv
  let o := { o with sourcePath, programPath, libraryRoot, runtimeObjects, seedFiles }
  if o.sourcePath = o.programPath ∨ o.objectPath = o.programPath then throw .programClash
  return o

end Options

end StagedSandbox
