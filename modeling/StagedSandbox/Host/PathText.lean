import StagedSandbox.Path

/-!
# Paths of the host as text

The host is given paths as text and looks at more than the names in it. A part that is empty or
`.` names nothing: it leads nowhere else, but at the end of a text it asks for a directory. The
functions here look at the text alone, and at no file.
-/

namespace StagedSandbox.HostPath

/-- Whether a part of a text names nothing. -/
def isIdle (part : String) : Bool := part = "" || part = "."

/-- The parts without those at the end that name nothing. -/
def dropIdleEnd (parts : List String) : List String := (parts.reverse.dropWhile isIdle).reverse

/-- The text of parts, with slashes between them. -/
def ofParts (parts : List String) : String := "/".intercalate parts

/-- The text of a path and one more name. -/
def join (text name : String) : String :=
  if text = "" then name
  else if text.toList.getLast? = some '/' then text ++ name
  else text ++ "/" ++ name

/-- A relative path without the parts at its ends that name nothing; an absolute path stays. -/
def trim (text : String) : String :=
  if Path.isAbsolute text then text
  else ofParts (dropIdleEnd ((Path.parts text).dropWhile isIdle))

/-- The paths to the directories that the last of some parts lies in, the innermost first. The
parts are listed from the last to the first. The root and the directory that a relative path
starts at are left out: they need no making. -/
def above : List String → List String
  | [] => []
  | part :: before =>
    if isIdle part then above before
    else
      let parent := ofParts (dropIdleEnd before.reverse)
      if parent = "" then [] else parent :: above before

/-- The paths to the directories that a path lies in, the innermost first. -/
def parents (text : String) : List String := above (Path.parts text).reverse

end StagedSandbox.HostPath
