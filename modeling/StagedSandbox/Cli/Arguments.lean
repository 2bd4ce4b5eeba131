import StagedSandbox.Text.Split

/-!
# Arguments of a command line

Arguments are sorted into switches, settings and operands by what a command knows of. A setting
takes its value after an equals sign, or from the next argument unless that looks like an option;
no value may be empty, and only settings that are listed as repeatable may be given twice. After
`--` all arguments are operands. The name of a subcommand ends the list: what follows belongs to
the subcommand.
-/

namespace StagedSandbox.Cli

/-- What a command knows of; options are named without their dashes. -/
structure Grammar where
  switches : List String := []
  settings : List String := []
  repeatable : List String := []
  subcommands : List String := []

/-- Switches that may be written as one letter. -/
def switchOfLetter? : String → Option String
  | "-v" => some "verbose"
  | _ => none

/-- The arguments of a command, sorted. -/
structure Arguments where
  switches : List String := []
  settings : List (String × String) := []
  operands : List String := []
  /-- The name of the subcommand, and what follows it. -/
  subcommand : Option (String × List String) := none
  deriving DecidableEq, Repr

namespace Arguments

/-- What an argument looks like. -/
inductive Shape where
  /-- Two dashes and a name, with the value after an equals sign if there is one. -/
  | long (name : String) (value : Option String)
  | short
  | operand
  deriving DecidableEq, Repr

/-- What an argument looks like; a single dash is an operand. -/
def shape (argument : String) : Shape :=
  match argument.toList with
  | '-' :: '-' :: name =>
    match Text.splitFirst? (· = '=') name with
    | some (name, value) => .long (String.ofList name) (some (String.ofList value))
    | none => .long (String.ofList name) none
  | '-' :: _ :: _ => .short
  | _ => .operand

/-- Add a switch that was not given before. -/
def addSwitch? (a : Arguments) (name : String) : Option Arguments :=
  if name ∈ a.switches then none else some { a with switches := a.switches ++ [name] }

/-- Add a setting, one that was not given before unless it is repeatable. -/
def addSetting? (g : Grammar) (a : Arguments) (name value : String) : Option Arguments :=
  if value = "" then none
  else if name ∈ a.settings.map Prod.fst ∧ name ∉ g.repeatable then none
  else some { a with settings := a.settings ++ [(name, value)] }

/-- Sort arguments, after those that were sorted before. The setting that was named last may still
wait for its value. -/
def sort? (g : Grammar) (a : Arguments) (waiting : Option String) : List String → Option Arguments
  | [] => if waiting = none then some a else none
  | argument :: rest =>
    match waiting, shape argument with
    | some name, .operand => (a.addSetting? g name argument).bind fun a => sort? g a none rest
    | some _, _ => none
    | none, .operand =>
      if argument ∈ g.subcommands then some { a with subcommand := some (argument, rest) }
      else sort? g { a with operands := a.operands ++ [argument] } none rest
    | none, .short =>
      ((switchOfLetter? argument).bind a.addSwitch?).bind fun a => sort? g a none rest
    | none, .long "" none => some { a with operands := a.operands ++ rest }
    | none, .long name value =>
      if name ∈ g.switches then
        if value.isSome then none else (a.addSwitch? name).bind fun a => sort? g a none rest
      else if name ∈ g.settings ∨ name ∈ g.repeatable then
        match value with
        | some value => (a.addSetting? g name value).bind fun a => sort? g a none rest
        | none => sort? g a (some name) rest
      else none

/-- The value of a setting. -/
def setting? (a : Arguments) (name : String) : Option String := a.settings.lookup name

/-- All values of a repeatable setting. -/
def values (a : Arguments) (name : String) : List String :=
  (a.settings.filter fun setting => setting.1 = name).map Prod.snd

/-- The values of two settings that go together, if they are given. -/
def pair? (a : Arguments) (first second : String) : Option (Option (String × String)) :=
  match a.setting? first, a.setting? second with
  | some first, some second => some (some (first, second))
  | none, none => some none
  | _, _ => none

/-- The only operand. -/
def operand? (a : Arguments) : Option String :=
  match a.operands with
  | [operand] => if operand = "" then none else some operand
  | _ => none

end Arguments

end StagedSandbox.Cli
