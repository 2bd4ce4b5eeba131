import StagedSandbox.Tool.Basic
import StagedSandbox.Wasm.Linked

/-!
# The linker

The linker joins the operations of object files, in the order of its inputs, into one linked
program. Inputs that are no object files, such as runtime libraries, only have to be there.
-/

namespace StagedSandbox.Tool.Linker

/-- Why the linker gives up. -/
inductive Complaint where
  | noOutputPath
  | unknownArgument (argument : String)
  | noInputs
  | noOutput
  | cannotOpen (path : String) (error : Errno)
  | malformed (path : String) (error : ObjectFile.ParseError)
  | noEntry
  | cannotWrite (path : String) (error : Errno)
  deriving DecidableEq, Repr

def Complaint.message (c : Complaint) : String :=
  "wasm-ld: error: " ++
    match c with
    | .noOutputPath => "-o: missing argument"
    | .unknownArgument argument => "unknown argument: " ++ argument
    | .noInputs => "no input files"
    | .noOutput => "no output file specified (use -o)"
    | .cannotOpen path error => "cannot open " ++ path ++ ": " ++ error.message
    | .malformed path error => path ++ ": " ++ error.message
    | .noEntry => "entry symbol not defined (pass --no-entry to suppress): _start"
    | .cannotWrite path error => "cannot write " ++ path ++ ": " ++ error.message

/-- Report a complaint, and exit with code one. -/
def complain {α : Type} (c : Complaint) : Native α := fail c.message

/-- The inputs and the output of a link, as far as they are named. -/
structure Link where
  inputs : List String := []
  output : Option String := none
  deriving DecidableEq, Repr

/-- Read arguments, after those read before. -/
def Link.parse (l : Link) : List String → Except Complaint Link
  | [] => .ok l
  | "-o" :: value :: rest => parse { l with output := some value } rest
  | ["-o"] => .error .noOutputPath
  | argument :: rest =>
    if argument.toList.head? = some '-' then .error (.unknownArgument argument)
    else parse { l with inputs := l.inputs ++ [argument] } rest

/-- Read input files: the operations of each object file among them. -/
def readInputs : List String → Native (List (List Op))
  | [] => return []
  | path :: rest => do
    match ← Native.attempt (readFile path) with
    | .error e => complain (.cannotOpen path e)
    | .ok data =>
      match ObjectFile.parse? data with
      | none => readInputs rest
      | some (.error e) => complain (.malformed path e)
      | some (.ok o) => return o.ops :: (← readInputs rest)

/-- Link the inputs to the output. -/
def link (l : Link) : Native Unit := do
  if l.inputs = [] then complain .noInputs
  match l.output with
  | none => complain .noOutput
  | some output =>
    let objects ← readInputs l.inputs
    if objects = [] then complain .noEntry
    let linked := Wasm.Linked.ofOps objects.flatten
    match ← Native.attempt (writeFile output (Bytes.ofText linked.render)) with
    | .ok _ => return
    | .error e => complain (.cannotWrite output e)

/-- The linker. -/
def program : Native Unit := do
  match Link.parse {} (← arguments) with
  | .ok l => link l
  | .error c => complain c

end StagedSandbox.Tool.Linker
