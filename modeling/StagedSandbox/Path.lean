import StagedSandbox.Text.Split

/-!
# Paths

A path of the file system is the list of names that lead from the root to a file or directory.
In text it is absolute: names are separated by `/`, empty parts and `.` are skipped, and `..`
leaves the last directory entered, the root being its own parent. There are no links, so this
reading needs no file system.

Some rules speak of the text itself and not of the path it denotes: the parent of a text, the
replacement of its extension, and whether one text lies beneath another.
-/

namespace StagedSandbox

/-- The names from the root to a file or directory. -/
abbrev Path := List String

namespace Path

/-- The parts of a text between slashes. -/
def parts (text : String) : List String := (Text.fields '/' text.toList).map String.ofList

/-- Follow one part of a text from a directory. -/
def enter (here : Path) (part : String) : Path :=
  if part = "" ∨ part = "." then here
  else if part = ".." then here.dropLast
  else here ++ [part]

/-- Follow the parts of a text from a directory; a leading slash does not lead back to the root. -/
def follow (here : Path) (text : String) : Path := (parts text).foldl enter here

/-- Whether a text denotes a path, that is, starts at the root. -/
def isAbsolute (text : String) : Bool := text.toList.head? = some '/'

/-- The path that an absolute text denotes. -/
def parse? (text : String) : Option Path :=
  if isAbsolute text then some (follow [] text) else none

/-- The text of a path: a slash before each name, and a single slash for the root. -/
def render : Path → String
  | [] => "/"
  | names => String.join (names.map ("/" ++ ·))

/-- The text of the path that an absolute text denotes. -/
def normalize? (text : String) : Option String := (parse? text).map render

/-- The text of the path that a text denotes beneath the one that another text denotes. A leading
slash does not lead back to the root. -/
def join? (base text : String) : Option String := normalize? (base ++ "/" ++ text)

/-- A name that a directory may hold. -/
def IsName (name : String) : Prop :=
  name ≠ "" ∧ name ≠ "." ∧ name ≠ ".." ∧ '/' ∉ name.toList

instance (name : String) : Decidable (IsName name) := by unfold IsName; infer_instance

/-! ### Rules on the text -/

/-- All of the text before its last slash; the root has no parent. -/
def parentText? (text : String) : Option String :=
  if text = "/" then none
  else
    match Text.splitLast? (· = '/') text.toList with
    | none => none
    | some ([], _) => some "/"
    | some (before, _) => some (String.ofList before)

/-- Replace what follows the last dot of a name, or add a dot and the extension. A dot that starts
the name counts as part of it. -/
def nameWithExtension (name : List Char) (extension : List Char) : List Char :=
  match Text.splitLast? (· = '.') name with
  | some (stem@(_ :: _), _) => stem ++ '.' :: extension
  | _ => name ++ '.' :: extension

/-- Replace the extension of the last part of a text. -/
def withExtension (text extension : String) : String :=
  String.ofList <|
    match Text.splitLast? (· = '/') text.toList with
    | none => nameWithExtension text.toList extension.toList
    | some (before, name) => before ++ '/' :: nameWithExtension name extension.toList

/-- Whether a text equals another or continues it after a slash; all absolute texts lie beneath
the root. -/
def isWithin (text base : String) : Bool :=
  if base = "/" then isAbsolute text
  else text = base || (base.toList ++ ['/']).isPrefixOf text.toList

/-! ### Laws -/

@[simp] theorem render_nil : render [] = "/" := rfl

theorem render_cons (name : String) (rest : List String) :
    render (name :: rest) = String.join ((name :: rest).map ("/" ++ ·)) := rfl

theorem enter_of_isName {name : String} (h : IsName name) (here : Path) :
    enter here name = here ++ [name] := by
  simp [enter, h.1, h.2.1, h.2.2.1]

end Path

end StagedSandbox
