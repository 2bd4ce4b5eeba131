import StagedSandbox.Stage.Source

/-!
# Pipelines

The stages of a pipeline run in order on one file system, each on a guest of its own. The first
stage that does not exit with code zero ends the run; a stage that cannot be run at all is a host
fault. The console shows each stage's command line, what it writes, how it failed, and an empty
line.
-/

namespace StagedSandbox

/-- A program to run, with its arguments, environment and preopened directories. -/
structure Stage where
  name : String
  source : StageSource
  arguments : List String
  environment : Table String String := []
  preopens : List Preopen := []
  /-- The random bytes that the program is given. -/
  entropy : Entropy

/-- The line that shows a stage's arguments. -/
def Stage.commandLine (s : Stage) : String := "$ " ++ " ".intercalate s.arguments

/-- What is told about a stage that ended. -/
def Stage.report (s : Stage) (e : StageSource.Execution) : String :=
  match e.signal with
  | .exited code =>
    if code = 0 then ""
    else
      "\n\n" ++ e.trace.getD "" ++ "\nexit code: " ++ Text.signed code.toInt ++ "\n"
  | signal => "fatal: " ++ s.name ++ " terminated abnormally (" ++ signal.kind ++ ")\n"

/-- What is told about a stage that could not be run. -/
def Stage.hostReport (fault : HostFault) : String := "host error: " ++ fault.message ++ "\n"

/-- Run a stage on a file system. -/
def Stage.run (engine : Wasm.Engine) (s : Stage) (fs : Fs) (console : Console) :
    Except HostFault StageSource.Execution × Fs × Console :=
  let g := Guest.start fs (console.append (s.commandLine ++ "\n")) s.arguments s.environment
    s.preopens s.entropy
  let (result, g) := s.source.start engine g
  let g := g.finish
  let told :=
    match result with
    | .ok e => s.report e
    | .error fault => Stage.hostReport fault
  (result, g.fs, g.console.append (told ++ "\n"))

/-- What became of the stages of a run. -/
inductive RunOutcome where
  | success
  | failure (stage : Nat) (name : String) (signal : Signal)
  deriving DecidableEq, Repr

namespace RunOutcome

/-- Whether all stages succeeded. -/
def isSuccess (o : RunOutcome) : Bool := o = .success

/-- The exit code of the run, if no stage was stopped. -/
def exitCode? : RunOutcome → Option Int32
  | .success => some 0
  | .failure _ _ signal => signal.exitCode?

/-- A run that failed, as a failure. -/
def result : RunOutcome → Except Failure Unit
  | .success => .ok ()
  | .failure stage _ (.exited code) => .error (.stageExit stage code)
  | .failure stage _ signal => .error (.abnormalTermination stage signal.kind)

end RunOutcome

/-- A stage that ended, in the report of a run. -/
structure StageReport where
  stage : Nat
  name : String
  signal : Signal
  deriving DecidableEq, Repr

/-- What a run hands back: what became of it, a report of each stage that ended, and the file
system that the last one left. -/
structure RunReport where
  outcome : RunOutcome
  stages : List StageReport
  fs : Fs

/-- Put the report of a stage in front of those of later stages. -/
def RunReport.addFirst (first : StageReport) (r : RunReport) : RunReport :=
  { r with stages := first :: r.stages }

namespace Pipeline

variable (engine : Wasm.Engine)

/-- Run stages, the first of which has the given number. -/
def runFrom (number : Nat) (fs : Fs) (console : Console) :
    List Stage → Except HostFault RunReport × Console
  | [] => (.ok ⟨.success, [], fs⟩, console)
  | s :: rest =>
    match s.run engine fs console with
    | (.error fault, _, console) => (.error fault, console)
    | (.ok e, fs, console) =>
      let first : StageReport := ⟨number, s.name, e.signal⟩
      if e.signal.isSuccess then
        let (result, console) := runFrom (number + 1) fs console rest
        (result.map (RunReport.addFirst first), console)
      else (.ok ⟨.failure number s.name e.signal, [first], fs⟩, console)

/-- Run stages on a file system. -/
def run (fs : Fs) (console : Console) (stages : List Stage) :
    Except HostFault RunReport × Console :=
  runFrom engine 0 fs console stages

end Pipeline

end StagedSandbox
