import StagedSandbox.Json.Value
import StagedSandbox.Playground.Options

/-!
# The written form of options

Options are written as a JSON object that names those to change. Other entries are skipped,
whatever they hold; an option that is given twice is refused. An array is read too: it gives the
options in their order, and may leave out the last ones.
-/

namespace StagedSandbox

/-- All options, in their order. -/
def Setting.all : List Setting :=
  [.sourcePath, .programPath, .compilerProgram, .linkerProgram, .libraryEnv, .libraryRoot,
    .runtimeObjects, .seedFiles]

/-- The option of a name. -/
def Setting.ofName? (name : String) : Option Setting :=
  Setting.all.find? fun setting => setting.name = name

namespace Options

/-- The text of a string. -/
def textOf? : Json.Value → Option String
  | .text (some text) => some (String.ofList text)
  | _ => none

/-- The texts of an array of strings. -/
def textsOf? : Json.Value → Option (List String)
  | .array items => items.mapM textOf?
  | _ => none

/-- Change one option to what a value gives. -/
def set? (o : Options) (setting : Setting) (value : Json.Value) : Option Options :=
  match setting with
  | .sourcePath => (textOf? value).map fun sourcePath => { o with sourcePath }
  | .programPath => (textOf? value).map fun programPath => { o with programPath }
  | .compilerProgram => (textOf? value).map fun compilerProgram => { o with compilerProgram }
  | .linkerProgram => (textOf? value).map fun linkerProgram => { o with linkerProgram }
  | .libraryEnv => (textOf? value).map fun libraryEnv => { o with libraryEnv }
  | .libraryRoot => (textOf? value).map fun libraryRoot => { o with libraryRoot }
  | .runtimeObjects => (textsOf? value).map fun runtimeObjects => { o with runtimeObjects }
  | .seedFiles => (textsOf? value).map fun seedFiles => { o with seedFiles }

/-- Change options as the entries of an object say, some having been given before. -/
def setEntries? (o : Options) (given : List Setting) :
    List (Json.Text × Json.Value) → Option Options
  | [] => some o
  | (none, _) :: _ => none
  | (some name, value) :: rest =>
    match Setting.ofName? (String.ofList name) with
    | none => setEntries? o given rest
    | some setting =>
      if setting ∈ given then none
      else (o.set? setting value).bind fun o => setEntries? o (setting :: given) rest

/-- Change options in their order. -/
def setInOrder? (o : Options) : List Setting → List Json.Value → Option Options
  | _, [] => some o
  | [], _ :: _ => none
  | setting :: settings, value :: values =>
    (o.set? setting value).bind fun o => setInOrder? o settings values

/-- The options that a value gives. -/
def ofValue? : Json.Value → Option Options
  | .object entries => setEntries? {} [] entries
  | .array items => setInOrder? {} Setting.all items
  | _ => none

/-- The options that a file's content gives, in their normal form. -/
def read (content : Bytes) : Except Failure Options :=
  match content.text? with
  | none => .error (.os .invalidText)
  | some text =>
    match (Json.Value.parse? text.toList).bind ofValue? with
    | none => .error .malformedOptions
    | some o => o.sanitize.mapError .configuration

end Options

end StagedSandbox
