import StagedSandbox.Object.Text
import StagedSandbox.Source.Printer
import StagedSandbox.Source.Reader
import StagedSandbox.Tool.Basic

/-!
# The compiler

The compiler turns a source program into an object file, or formats it in place.
-/

namespace StagedSandbox.Tool.Compiler

/-- The only target there is. -/
def target : String := "wasm32-unknown-wasi"

def versionText : String :=
  "Crystal 1.9.2 [playbox]\n\nLLVM: none\nDefault target: " ++ target ++ "\n"

def usage : String :=
  "Usage: crystal [command] [switches] [program file] [--] [arguments]\n\nCommand:\n" ++
  "    build                    build an executable\n" ++
  "    tool format              format project, directories and/or files\n" ++
  "    --version, -v            show version"

/-- Why the compiler gives up. -/
inductive Complaint where
  | usage
  | formatUsage
  | unknownCommand (command : String)
  | missingArgument (option : String)
  | unknownOption (option : String)
  | manySources
  | noSource
  | linking
  | unknownTarget (target : String)
  | preludeMissing (name : String)
  | sourceMissing (path : String)
  | sourceNotText (path : String)
  | mistake (path : String) (error : Source.SyntaxError)
  | cannotWrite (path : String) (error : Errno)
  deriving DecidableEq, Repr

def Complaint.message : Complaint → String
  | .usage => Compiler.usage
  | .formatUsage => "Usage: crystal tool format <file>"
  | .unknownCommand command => "Error: unknown command: " ++ command ++ "\n\n" ++ Compiler.usage
  | .missingArgument option => "Error: missing argument for " ++ option
  | .unknownOption option => "Error: unknown option: " ++ option
  | .manySources => "Error: multiple source files are not supported"
  | .noSource => "Error: no source file given"
  | .linking =>
    "Error: linking is not available here, use --cross-compile and link with wasm-ld"
  | .unknownTarget target => "Error: unsupported target: " ++ target
  | .preludeMissing name => "Error: can't find file '" ++ name ++ "'"
  | .sourceMissing path => "Error: file '" ++ path ++ "' does not exist"
  | .sourceNotText path => "Error: file '" ++ path ++ "' is not valid UTF-8"
  | .mistake path error =>
    "Syntax error in " ++ path ++ ":" ++ Text.decimal error.line ++ ": " ++ error.mistake.message
  | .cannotWrite path error => "Error: can't write " ++ path ++ ": " ++ error.message

/-- Report a complaint, and exit with code one. -/
def complain {α : Type} (c : Complaint) : Native α := fail c.message

/-- Go on with a result, or report why there is none. -/
def orComplain {α : Type} : Except Complaint α → Native α
  | .ok a => return a
  | .error c => complain c

/-! ### Arguments of a build -/

/-- What a build is asked for. -/
structure Build where
  source : Option String := none
  output : Option String := none
  crossCompile : Bool := false
  release : Bool := false
  prelude : Option String := none
  target : Option String := none
  deriving DecidableEq, Repr

/-- Read the arguments of a build, after those read before. -/
def Build.parse (b : Build) : List String → Except Complaint Build
  | [] => .ok b
  | "--cross-compile" :: rest => parse { b with crossCompile := true } rest
  | "--release" :: rest => parse { b with release := true } rest
  | "--prelude" :: value :: rest => parse { b with prelude := some value } rest
  | ["--prelude"] => .error (.missingArgument "--prelude")
  | "--target" :: value :: rest => parse { b with target := some value } rest
  | ["--target"] => .error (.missingArgument "--target")
  | "-o" :: value :: rest => parse { b with output := some value } rest
  | ["-o"] => .error (.missingArgument "-o")
  | "--output" :: value :: rest => parse { b with output := some value } rest
  | ["--output"] => .error (.missingArgument "-o")
  | argument :: rest =>
    if argument.toList.head? = some '-' then .error (.unknownOption argument)
    else if b.source.isSome then .error .manySources
    else parse { b with source := some argument } rest

/-- Where a build writes the object file. -/
def Build.objectPath (b : Build) (source : String) : String :=
  b.output.getD (Path.withExtension source "wasm")

/-! ### Steps of a build -/

/-- The text of a source file. -/
def readText (path : String) : Native String := do
  match ← Native.attempt (readFile path) with
  | .error _ => complain (.sourceMissing path)
  | .ok data =>
    match data.text? with
    | none => complain (.sourceNotText path)
    | some text => return text

/-- The file of a prelude in a library directory. -/
def preludePath (name directory : String) : String :=
  String.ofList (directory.toList.reverse.dropWhile (· = '/')).reverse ++ "/" ++ name ++ ".cr"

/-- Whether one of the directories holds a prelude. -/
def findPrelude (name : String) : List String → Native Bool
  | [] => return false
  | directory :: rest => do
    if ← fileExists (preludePath name directory) then return true else findPrelude name rest

/-- Look for a prelude in the library directories; the empty one is always there. -/
def checkPrelude (name : String) : Native Unit := do
  if name = "empty" then return
  let directories ← environmentValue "CRYSTAL_PATH"
  let directories := (Text.fields ':' directories.toList).map String.ofList
  if ← findPrelude name (directories.filter (· ≠ "")) then return
  complain (.preludeMissing name)

/-- Write a file of text. -/
def writeText (path text : String) : Native Unit := do
  match ← Native.attempt (writeFile path (Bytes.ofText text)) with
  | .ok _ => return
  | .error e => complain (.cannotWrite path e)

/-- The object file of a program. -/
def compile (path : String) (lines : List Source.Line) (release : Bool) : ObjectFile :=
  let ops := (lines.filterMap Source.Line.statement?).map Op.ofStatement
  ⟨some path, if release then Op.mergeWrites ops else ops⟩

/-- Compile a source file to an object file. -/
def build (arguments : List String) : Native Unit := do
  let b ← orComplain (Build.parse {} arguments)
  match b.source with
  | none => complain .noSource
  | some source =>
    if !b.crossCompile then complain .linking
    match b.target with
    | some other => if other ≠ target then complain (.unknownTarget other)
    | none => pure ()
    checkPrelude (b.prelude.getD "prelude")
    let text ← readText source
    let lines ← orComplain ((Source.read text).mapError (.mistake source))
    writeText (b.objectPath source) (compile source lines b.release).render

/-- Format a source file in place; it is written only if that changes it. -/
def format (arguments : List String) : Native Unit := do
  match arguments with
  | [path] =>
    let text ← readText path
    let lines ← orComplain ((Source.read text).mapError (.mistake path))
    let formatted := Source.format lines
    if formatted ≠ text then writeText path formatted
  | _ => complain .formatUsage

/-- The compiler. -/
def program : Native Unit := do
  match ← arguments with
  | "--version" :: _ | "-v" :: _ | "version" :: _ => print versionText
  | "build" :: rest => build rest
  | "tool" :: "format" :: rest => format rest
  | command :: _ => complain (.unknownCommand command)
  | [] => complain .usage

end StagedSandbox.Tool.Compiler
