import StagedSandbox.Object.Basic
import StagedSandbox.Text.Blank
import StagedSandbox.Text.Hex
import StagedSandbox.Text.Split

/-!
# The written form of object files

An object file is a text: a first line that marks it, the path of its source, and a line for each
operation. A file with another first line, or one that is not text, is no object file at all; in
an object file, blank lines and further comments are skipped.
-/

namespace StagedSandbox

/-- The first line of an object file. -/
def ObjectFile.mark : String := ";; playbox-object v1"

/-- The beginning of the line that names the source. -/
def ObjectFile.sourceMark : String := ";; source "

/-- The line of an operation. -/
def Op.render : Op → List Char
  | .write data => "write ".toList ++ Text.Hex.encode data.list
  | .exit code => "exit ".toList ++ (Text.signed code.toInt).toList
  | .abort => "abort".toList

/-- Why a line of an object file is not an operation. -/
inductive Op.Mistake where
  | data (error : Text.Hex.Error)
  | code (error : Text.Integer.Error)
  | unknown (operation : String)
  deriving DecidableEq, Repr

def Op.Mistake.message : Op.Mistake → String
  | .data error => error.message
  | .code error => error.message
  | .unknown operation => "unknown operation '" ++ operation ++ "'"

/-- Read the line of an operation. -/
def Op.parse (line : List Char) : Except Op.Mistake Op :=
  let (operation, argument) := (Text.splitFirst? (· = ' ') line).getD (line, [])
  match String.ofList operation with
  | "write" =>
    match Text.Hex.decode (Bytes.ofText (String.ofList argument)).list with
    | .ok data => .ok (.write (Bytes.ofList data))
    | .error e => .error (.data e)
  | "exit" =>
    match Text.Integer.read 32 argument with
    | .ok code => .ok (.exit (Int32.ofInt code))
    | .error e => .error (.code e)
  | "abort" => .ok .abort
  | operation => .error (.unknown operation)

namespace ObjectFile

/-- The lines of an object file. -/
def renderLines (o : ObjectFile) : List (List Char) :=
  mark.toList :: (o.source.toList.map fun path => sourceMark.toList ++ path.toList) ++
    o.ops.map Op.render

/-- The written form of an object file. -/
def render (o : ObjectFile) : String :=
  String.ofList (o.renderLines.flatMap fun line => line ++ ['\n'])

/-- A mistake in an object file, and the number of the line it is in. -/
structure ParseError where
  line : Nat
  mistake : Op.Mistake
  deriving DecidableEq, Repr

def ParseError.message (e : ParseError) : String :=
  "line " ++ Text.decimal e.line ++ ": " ++ e.mistake.message

/-- Read lines, the first of which has the given number, after what was read before them. -/
def readLines (number : Nat) (source : Option String) (before : List Op) :
    List (List Char) → Except ParseError ObjectFile
  | [] => .ok ⟨source, before.reverse⟩
  | text :: rest =>
    let line := Text.trim text
    match Text.stripStart? sourceMark.toList line with
    | some path => readLines (number + 1) (some (String.ofList path)) before rest
    | none =>
      if line.isEmpty || ";;".toList.isPrefixOf line then readLines (number + 1) source before rest
      else
        match Op.parse line with
        | .ok op => readLines (number + 1) source (op :: before) rest
        | .error mistake => .error ⟨number, mistake⟩

/-- Read an object file, if the bytes are one. -/
def parse? (bytes : Bytes) : Option (Except ParseError ObjectFile) :=
  match bytes.text? with
  | none => none
  | some text =>
    match Text.lines text.toList with
    | [] => none
    | first :: rest => if first = mark.toList then some (readLines 2 none [] rest) else none

end ObjectFile

end StagedSandbox
