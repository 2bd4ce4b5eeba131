import StagedSandbox.Source.Syntax
import StagedSandbox.Text.Blank
import StagedSandbox.Text.Split

/-!
# Reading source programs

Each line is read on its own, blanks at its ends being skipped; the first line that does not
parse is the syntax error of the whole.
-/

namespace StagedSandbox.Source

/-- Why a line does not parse. -/
inductive Mistake where
  /-- A `print` without a value. -/
  | nothingToPrint
  /-- An `abort` with an argument. -/
  | abortArgument
  | unknownStatement (keyword : List Char)
  | notExitCode (argument : List Char)
  | notLiteral (argument : List Char)
  | textAfterLiteral (text : List Char)
  | unknownEscape (c : Char)
  | openLiteral
  deriving DecidableEq, Repr

def Mistake.message : Mistake → String
  | .nothingToPrint => "wrong number of arguments for 'print' (given 0, expected 1)"
  | .abortArgument => "wrong number of arguments for 'abort' (given 1, expected 0)"
  | .unknownStatement keyword => "undefined method '" ++ String.ofList keyword ++ "'"
  | .notExitCode argument =>
    "expected an integer exit status, not '" ++ String.ofList argument ++ "'"
  | .notLiteral argument =>
    "expected an integer or string literal, not '" ++ String.ofList argument ++ "'"
  | .textAfterLiteral text => "unexpected token: '" ++ String.ofList text ++ "'"
  | .unknownEscape c => "invalid escape sequence '\\" ++ String.singleton c ++ "'"
  | .openLiteral => "unterminated string literal"

/-- Read a number of 64 bits; underscores between its characters count for nothing. -/
def number? (text : List Char) : Option Int :=
  if text.head? = some '_' ∨ text.getLast? = some '_' then none
  else (Text.Integer.read 64 (text.filter (· ≠ '_'))).toOption

/-- The character that an escape stands for. -/
def escape? : Char → Option Char
  | 'n' => some '\n'
  | 't' => some '\t'
  | '"' => some '"'
  | '\\' => some '\\'
  | _ => none

/-- Read a string literal after its opening quote, to the end of the line. -/
def literal : List Char → Except Mistake (List Char)
  | [] => .error .openLiteral
  | '"' :: rest =>
    match Text.trim rest with
    | [] => .ok []
    | text => .error (.textAfterLiteral text)
  | ['\\'] => .error .openLiteral
  | '\\' :: c :: rest =>
    match escape? c with
    | some c => (literal rest).map (c :: ·)
    | none => .error (.unknownEscape c)
  | c :: rest => (literal rest).map (c :: ·)

/-- Read a value. -/
def value : List Char → Except Mistake Value
  | '"' :: rest => (literal rest).map .text
  | text =>
    match number? text with
    | some n => .ok (.number n)
    | none => .error (.notLiteral text)

/-- Read an exit code. -/
def exitCode (text : List Char) : Except Mistake Int32 :=
  match number? text with
  | some n =>
    if Int32.minValue.toInt ≤ n ∧ n ≤ Int32.maxValue.toInt then .ok (Int32.ofInt n)
    else .error (.notExitCode text)
  | none => .error (.notExitCode text)

/-- The keyword of a line, and its argument. -/
def splitKeyword (line : List Char) : List Char × List Char :=
  match Text.splitFirst? Text.isBlank line with
  | some (keyword, rest) => (keyword, Text.trim rest)
  | none => (line, [])

/-- Read a statement. -/
def statement (line : List Char) : Except Mistake Statement :=
  let (keyword, argument) := splitKeyword line
  match String.ofList keyword, argument with
  | "print", [] => .error .nothingToPrint
  | "print", argument => (value argument).map .print
  | "puts", [] => .ok (.puts none)
  | "puts", argument => (value argument).map fun v => .puts (some v)
  | "exit", [] => .ok (.exit 0)
  | "exit", argument => (exitCode argument).map .exit
  | "abort", [] => .ok .abort
  | "abort", _ => .error .abortArgument
  | _, _ => .error (.unknownStatement keyword)

/-- Read a line. -/
def line (text : List Char) : Except Mistake Line :=
  match Text.trim text with
  | [] => .ok .blank
  | '#' :: rest => .ok (.comment ('#' :: rest))
  | text => (statement text).map .statement

/-- A mistake, and the number of the line it is in. -/
structure SyntaxError where
  line : Nat
  mistake : Mistake
  deriving DecidableEq, Repr

/-- Read lines, the first of which has the given number. -/
def readLines (number : Nat) : List (List Char) → Except SyntaxError (List Line)
  | [] => .ok []
  | text :: rest =>
    match line text with
    | .error mistake => .error ⟨number, mistake⟩
    | .ok first => (readLines (number + 1) rest).map (first :: ·)

/-- Read a source program. -/
def read (text : String) : Except SyntaxError (List Line) := readLines 1 (Text.lines text.toList)

end StagedSandbox.Source
