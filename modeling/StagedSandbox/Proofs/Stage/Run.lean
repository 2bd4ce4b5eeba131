import StagedSandbox.Proofs.Wasm.Engine
import StagedSandbox.Proofs.Wasm.Run
import StagedSandbox.Stage.Pipeline

/-!
# Runs of stages

What a stage adds to the console and leaves in the file system, for a native program that succeeds
and for a module that ends with a text written, how a linked program ends on an engine that runs
its text (`StageSource.start_linked`), and how the stages of a pipeline follow each other.
-/

namespace StagedSandbox

variable {engine : Wasm.Engine}

/-- The guest that a stage starts with. -/
def Stage.guest (s : Stage) (fs : Fs) (console : Console) : Guest :=
  Guest.start fs (console.append (s.commandLine ++ "\n")) s.arguments s.environment s.preopens
    s.entropy

theorem Stage.report_success (s : Stage) (trace : Option String) :
    s.report ⟨.exited 0, trace⟩ = "" := rfl

theorem Stage.report_killed (s : Stage) (signal : Int32) (trace : Option String) :
    s.report ⟨.killed signal, trace⟩ = "fatal: " ++ s.name ++
      " terminated abnormally (killed by signal " ++ Text.signed signal.toInt ++ ")\n" := by
  have hjoin (front : String) : front ++ " terminated abnormally (" ++ "killed by signal " =
      front ++ " terminated abnormally (killed by signal " := String.append_assoc.trans rfl
  change "fatal: " ++ s.name ++ " terminated abnormally (" ++
    ("killed by signal " ++ Text.signed signal.toInt) ++ ")\n" = _
  simp only [← String.append_assoc, hjoin]

theorem Stage.report_faulted (s : Stage) (fault : Fault) (trace : Option String) :
    s.report ⟨.faulted fault, trace⟩ = "fatal: " ++ s.name ++
      " terminated abnormally (fault: " ++ fault.message ++ ")\n" := by
  have hjoin (front : String) : front ++ " terminated abnormally (" ++ "fault: " =
      front ++ " terminated abnormally (fault: " := String.append_assoc.trans rfl
  change "fatal: " ++ s.name ++ " terminated abnormally (" ++ ("fault: " ++ fault.message) ++
    ")\n" = _
  simp only [← String.append_assoc, hjoin]

theorem Stage.hostReport_cannotLoad (path : String) (e : FsError) :
    hostReport (.cannotLoad path e) =
      "host error: cannot load module " ++ path ++ ": " ++ e.message ++ "\n" := by
  dsimp only [hostReport, HostFault.message]
  simp only [← String.append_assoc, String.reduceAppend]

/-- What is told about the start of a stage. -/
def Stage.told (s : Stage) : Except HostFault StageSource.Execution → String
  | .ok e => s.report e
  | .error fault => Stage.hostReport fault

/-- The guest that a stage leaves tells what the stage adds to the console and leaves of the file
system. -/
theorem Stage.run_of_start {s : Stage} {fs : Fs} {console : Console}
    {result : Except HostFault StageSource.Execution} {g : Guest}
    (h : s.source.start engine (s.guest fs console) = (result, g)) :
    s.run engine fs console = (result, g.fs, g.finish.console.append (s.told result ++ "\n")) := by
  rw [Stage.run, show Guest.start fs (console.append (s.commandLine ++ "\n")) s.arguments
    s.environment s.preopens s.entropy = s.guest fs console from rfl, h]
  cases result <;> rfl

/-- A native program that only changes the file system shows its command line alone. -/
theorem Stage.run_native {s : Stage} {tool : NativeTool} {fs fs' : Fs} {console : Console}
    (hsource : s.source = .native tool)
    (hrun : tool.program.run (s.guest fs console) =
      (.exited 0, { s.guest fs console with fs := fs' })) :
    s.run engine fs console =
      (.ok ⟨.exited 0, none⟩, fs', console.append (s.commandLine ++ "\n" ++ "\n")) := by
  have hfinish : ({ s.guest fs console with fs := fs' } : Guest).finish =
      { s.guest fs console with fs := fs' } := Guest.finish_of_held rfl rfl
  have hstart : s.source.start engine (s.guest fs console) =
      (.ok ⟨.exited 0, none⟩, { s.guest fs console with fs := fs' }) := by
    rw [hsource, StageSource.start, hrun]
  rw [Stage.run_of_start hstart]
  simp only [hfinish, Stage.told, Stage.report_success, String.empty_append]
  simp only [Stage.guest, Guest.start, Console.append_append]

namespace StageSource

/-- A module that does what is meant ends as it is meant to stop. -/
theorem startModule_of_does {module : Wasm.Module} {meaning : Wasm.Meaning} {g g' : Guest}
    {stop : Stop} (hdoes : module.Does meaning) (h : meaning g = (.error (.stop stop), g')) :
    ∃ trace, startModule module g = (.ok ⟨.ofStop stop, trace⟩, g') := by
  obtain ⟨entry, hinstantiate, hends, hleft⟩ := hdoes g
  cases hentry : entry g with
  | mk result left =>
    rw [h, hentry] at hends hleft
    obtain rfl : left = g' := hleft
    cases hends with
    | @stopped _ e hstop =>
      refine ⟨(Execution.ofError e).trace, ?_⟩
      have hsignal : (Execution.ofError e).signal = .ofStop stop := by
        simp only [Execution.ofError, hstop]
      rw [startModule, hinstantiate]
      simp only [hentry, ← hsignal]

/-- The text of a linked program compiles to a module that does what its operations say. -/
theorem start_linked {ops : List Op}
    (h : Wasm.Linked.dataBase + Wasm.Linked.dataSize ops ≤ Wasm.maxPages * Memory.pageSize)
    (hengine : engine.RunsText (Wasm.Linked.ofOps ops).render) :
    ∃ module, engine.compile (Bytes.ofText (Wasm.Linked.ofOps ops).render) = .ok module ∧
      ∀ g : Guest, g.descriptors.get? 1 = some .stdout → Text.Utf8.Holds g.heldOut →
        ∃ trace, startModule module g =
          (.ok ⟨.ofStop (Op.stop ops), trace⟩, g.wrote (Op.written ops)) := by
  obtain ⟨meaning, hmeaning, hrun⟩ := Wasm.Linked.meaningOf?_render h
  obtain ⟨module, hcompile, hdoes⟩ := hengine meaning hmeaning
  exact ⟨module, hcompile, fun g hout hheld =>
    startModule_of_does hdoes (hrun g hout hheld)⟩

end StageSource

namespace Pipeline

/-! ### One stage after the other -/

theorem runFrom_success {number : Nat} {fs fs' : Fs} {console console' : Console} {s : Stage}
    {e : StageSource.Execution} (h : s.run engine fs console = (.ok e, fs', console'))
    (he : e.signal.isSuccess = true) (rest : List Stage) :
    runFrom engine number fs console (s :: rest) =
      ((runFrom engine (number + 1) fs' console' rest).1.map
          (RunReport.addFirst ⟨number, s.name, e.signal⟩),
        (runFrom engine (number + 1) fs' console' rest).2) := by
  rw [runFrom, h]
  simp only [he, if_true]

theorem runFrom_failure {number : Nat} {fs fs' : Fs} {console console' : Console} {s : Stage}
    {e : StageSource.Execution} (h : s.run engine fs console = (.ok e, fs', console'))
    (he : e.signal.isSuccess = false) (rest : List Stage) :
    runFrom engine number fs console (s :: rest) =
      (.ok ⟨.failure number s.name e.signal, [⟨number, s.name, e.signal⟩], fs'⟩, console') := by
  rw [runFrom, h]
  simp only [he, Bool.false_eq_true, if_false]

theorem runFrom_fault {number : Nat} {fs fs' : Fs} {console console' : Console} {s : Stage}
    {fault : HostFault} (h : s.run engine fs console = (.error fault, fs', console'))
    (rest : List Stage) :
    runFrom engine number fs console (s :: rest) = (.error fault, console') := by
  rw [runFrom, h]

/-- The last stage decides how the run ends. -/
theorem runFrom_last {number : Nat} {fs fs' : Fs} {console console' : Console} {s : Stage}
    {e : StageSource.Execution} (h : s.run engine fs console = (.ok e, fs', console')) :
    runFrom engine number fs console [s] =
      (.ok ⟨if e.signal.isSuccess then .success else .failure number s.name e.signal,
        [⟨number, s.name, e.signal⟩], fs'⟩, console') := by
  cases he : e.signal.isSuccess with
  | true => rw [runFrom_success h he]; rfl
  | false => rw [runFrom_failure h he]; rfl

end Pipeline

end StagedSandbox
