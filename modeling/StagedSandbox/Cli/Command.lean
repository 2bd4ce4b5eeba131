import StagedSandbox.Cli.Arguments
import StagedSandbox.Snapshot.Mount

/-!
# Commands

What can be asked for on the command line. `Invocation.parse?` refuses arguments that miss
something, repeat something, or name something unknown.
-/

namespace StagedSandbox.Cli

/-- The files that a snapshot is kept in. -/
structure SnapshotFiles where
  index : String
  blob : String
  deriving DecidableEq, Repr

/-- The files that a playground is set up with. -/
structure Setup where
  /-- The modules of the compiler and the linker. -/
  tools : Option (String × String) := none
  config : Option String := none
  deriving DecidableEq, Repr

inductive Command where
  /-- Pack mounts of the host into a snapshot. -/
  | pack (mounts : List Mount) (files : SnapshotFiles)
  /-- Check a snapshot and tell its size. -/
  | inspect (files : SnapshotFiles)
  /-- Compile, link and run a program, or write the linked program to a file. -/
  | run (source : String) (release : Bool) (exportTo : Option String)
      (snapshot : Option SnapshotFiles) (setup : Setup)
  /-- Format a source file in place. -/
  | format (source : String) (setup : Setup)
  /-- Tell the version of the compiler. -/
  | version (setup : Setup)
  deriving DecidableEq, Repr

/-- A command, and the directory in which a log of it is kept. -/
structure Invocation where
  command : Command
  logDir : Option String := none
  deriving DecidableEq, Repr

/-- What every command knows of. -/
def everywhere : Grammar := { switches := ["verbose"], settings := ["log-dir"] }

/-- What a command knows of besides. -/
def Grammar.withGlobals (g : Grammar) : Grammar :=
  { g with
    switches := everywhere.switches ++ g.switches
    settings := everywhere.settings ++ g.settings }

/-- The settings for a setup. -/
def setupSettings : List String := ["compiler", "linker", "config"]

/-- Sort the arguments of a command that has no subcommands. -/
def sorted? (g : Grammar) (arguments : List String) : Option Arguments :=
  Arguments.sort? g.withGlobals {} none arguments

/-- The setup that settings give. -/
def Setup.ofArguments? (a : Arguments) : Option Setup := do
  return { tools := ← a.pair? "compiler" "linker", config := a.setting? "config" }

/-- The files of a snapshot that two settings give. -/
def SnapshotFiles.ofArguments? (a : Arguments) : Option SnapshotFiles := do
  return ⟨← a.setting? "index", ← a.setting? "blob"⟩

/-- A command whose arguments name nothing to work on. -/
def Arguments.withoutOperands? (a : Arguments) : Option Unit :=
  if a.operands = [] then some () else none

/-- Read the arguments of each subcommand for snapshots. -/
def parseSnapshot? : String → List String → Option Invocation
  | "build", arguments => do
    let a ← sorted? { settings := ["index", "blob"], repeatable := ["mount"] } arguments
    a.withoutOperands?
    let mounts ← (a.values "mount").mapM fun text => (Mount.parse text).toOption
    if mounts = [] then none
    else return ⟨.pack mounts (← SnapshotFiles.ofArguments? a), a.setting? "log-dir"⟩
  | "info", arguments => do
    let a ← sorted? { settings := ["index", "blob"] } arguments
    a.withoutOperands?
    return ⟨.inspect (← SnapshotFiles.ofArguments? a), a.setting? "log-dir"⟩
  | _, _ => none

/-- A log directory that is named for a command holds for its subcommand, unless that names
another. -/
def Invocation.inherit (a : Arguments) (i : Invocation) : Invocation :=
  { i with logDir := i.logDir.or (a.setting? "log-dir") }

/-- Read the arguments of each command. -/
def parseCommand? : String → List String → Option Invocation
  | "snapshot", arguments => do
    let a ← sorted? { subcommands := ["build", "info"] } arguments
    a.withoutOperands?
    let (name, rest) ← a.subcommand
    return (← parseSnapshot? name rest).inherit a
  | "run", arguments => do
    let settings := ["export", "snapshot-index", "snapshot-blob"] ++ setupSettings
    let a ← sorted? { switches := ["release"], settings } arguments
    let snapshot := (← a.pair? "snapshot-index" "snapshot-blob").map fun files =>
      (⟨files.1, files.2⟩ : SnapshotFiles)
    return {
      command := .run (← a.operand?) (a.switches.contains "release") (a.setting? "export") snapshot
        (← Setup.ofArguments? a)
      logDir := a.setting? "log-dir" }
  | "format", arguments => do
    let a ← sorted? { settings := setupSettings } arguments
    return ⟨.format (← a.operand?) (← Setup.ofArguments? a), a.setting? "log-dir"⟩
  | "version", arguments => do
    let a ← sorted? { settings := setupSettings } arguments
    a.withoutOperands?
    return ⟨.version (← Setup.ofArguments? a), a.setting? "log-dir"⟩
  | _, _ => none

/-- Read a command line. -/
def Invocation.parse? (arguments : List String) : Option Invocation := do
  let a ← sorted? { subcommands := ["snapshot", "run", "format", "version"] } arguments
  a.withoutOperands?
  let (name, rest) ← a.subcommand
  return (← parseCommand? name rest).inherit a

end StagedSandbox.Cli
