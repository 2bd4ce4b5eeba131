import StagedSandbox.Source.Syntax

/-!
# Formatting source programs

Statements are written with single blanks. Blank lines never stand at either end of the text or
beside each other, and the text ends with a line break unless it is empty.
-/

namespace StagedSandbox.Source

/-- A character as it is written in a string literal. -/
def escapeChar : Char → List Char
  | '"' => ['\\', '"']
  | '\\' => ['\\', '\\']
  | '\n' => ['\\', 'n']
  | '\t' => ['\\', 't']
  | c => [c]

def Value.render : Value → List Char
  | .number n => (Text.signed n).toList
  | .text t => '"' :: (t.flatMap escapeChar ++ ['"'])

def Statement.render : Statement → List Char
  | .print v => "print ".toList ++ v.render
  | .puts none => "puts".toList
  | .puts (some v) => "puts ".toList ++ v.render
  | .exit code =>
    if code = 0 then "exit".toList else "exit ".toList ++ (Text.signed code.toInt).toList
  | .abort => "abort".toList

def Line.render : Line → List Char
  | .blank => []
  | .comment text => text
  | .statement s => s.render

/-- Drop a blank line at the start or beside another one. -/
def collapse (afterBlank : Bool) : List Line → List Line
  | [] => []
  | .blank :: rest =>
    if afterBlank then collapse true rest else .blank :: collapse true rest
  | line :: rest => line :: collapse false rest

/-- Drop the blank lines at the end. -/
def dropLastBlanks (lines : List Line) : List Line :=
  (lines.reverse.dropWhile (· = .blank)).reverse

/-- The lines that are written. -/
def tidy (lines : List Line) : List Line := dropLastBlanks (collapse true lines)

/-- The formatted text of a program. -/
def format (lines : List Line) : String :=
  String.ofList ((tidy lines).flatMap fun line => line.render ++ ['\n'])

end StagedSandbox.Source
