import StagedSandbox.Proofs.Playground.Run
import StagedSandbox.Proofs.Playground.Sources
import StagedSandbox.Proofs.Stage.Transcript

/-!
# Programs that are handed back

A request that hands its program back runs the same tools on the same file systems as one that runs
it. If one of them does not succeed, both requests come to the same; if both do, the bytes handed
back are those from which the other request compiles the module that it runs
(`Playground.run_handed_or_executed`).
-/

namespace StagedSandbox

namespace Playground

open Pipeline

/-! ### The tools -/

/-- The invocations of the compiler and the linker. -/
def tools (p : Playground) (release : Bool) (fs : Fs) (console : Console) : List Invocation :=
  invoked p.host.engine fs console [p.compileStage release, p.linkStage]

/-- The reports of tools that succeeded. -/
def toolReports : List StageReport := [⟨0, "compile", .exited 0⟩, ⟨1, "link", .exited 0⟩]

variable (p : Playground) (release : Bool) (fs : Fs) (console : Console)

theorem stages_executed :
    p.stages ⟨release, true⟩ = [p.compileStage release, p.linkStage] ++ [p.runStage] := rfl

theorem length_tools_le : (p.tools release fs console).length ≤ 2 := by
  have hstages := congrArg List.length
    (map_stage_invoked p.host.engine fs console [p.compileStage release, p.linkStage])
  rw [List.length_map, List.length_take] at hstages
  exact hstages.trans_le (Nat.min_le_right _ _)

/-- A request that runs its program invokes the tools first. -/
theorem take_invoked_executed :
    (invoked p.host.engine fs console (p.stages ⟨release, true⟩)).take 2 =
      p.tools release fs console := by
  rw [stages_executed, invoked_append, ← tools]
  split
  · next hall => exact List.take_left' (length_invoked_of_succeeded p.host.engine fs console hall)
  · exact List.take_of_length_le (length_tools_le p release fs console)

/-- Stages behind tools that all succeed run on what the linker left, and are reported after
them. -/
theorem run_of_tools_succeeded (h : ∀ i ∈ p.tools release fs console, i.succeeded = true) :
    ∃ link, (p.tools release fs console).getLast? = some link ∧ link.stage = p.linkStage ∧
      ∀ later, Pipeline.run p.host.engine fs console
          ([p.compileStage release, p.linkStage] ++ later) =
        ((runFrom p.host.engine 2 link.left.fs link.shown later).1.map
            (RunReport.followedBy ⟨.success, toolReports, link.left.fs⟩),
          (runFrom p.host.engine 2 link.left.fs link.shown later).2) := by
  let compile : Invocation := ⟨p.host.engine, p.compileStage release, fs, console⟩
  let link : Invocation := ⟨p.host.engine, p.linkStage, compile.left.fs, compile.shown⟩
  have hcompile : compile.succeeded = true := by
    cases hcompile : compile.succeeded with
    | true => rfl
    | false =>
      rw [tools, invoked_cons_of_not_succeeded _ _ _ hcompile] at h
      exact hcompile.symm.trans (h _ (List.mem_singleton_self _))
  have htools : p.tools release fs console = [compile, link] := by
    rw [tools, invoked_cons_of_succeeded _ _ _ hcompile, invoked_singleton]
  rw [htools] at h ⊢
  have hlink : link.succeeded = true := h link (by simp)
  refine ⟨link, rfl, rfl, ?_⟩
  intro later
  have hfirst := compile.runFrom_of_succeeded hcompile 0 (p.linkStage :: later)
  have hsecond := link.runFrom_of_succeeded hlink 1 later
  rw [List.cons_append, List.cons_append, List.nil_append]
  refine hfirst.trans ?_
  rw [show runFrom p.host.engine 1 compile.left.fs compile.shown (p.linkStage :: later) = _ from
    hsecond]
  cases (runFrom p.host.engine 2 link.left.fs link.shown later).1 <;> rfl

variable {p} in
/-- With the native tools all stages act by system calls, if the modules of the engine do. -/
theorem byCalls_stages (htoolchain : p.toolchain = .native) (hengine : p.host.engine.ByCalls)
    (request : RunRequest) : ∀ s ∈ p.stages request, s.source.ByCalls p.host.engine := by
  have hcompile : (p.compileStage request.release).source.ByCalls p.host.engine := by
    rw [compileStage, stage, htoolchain]
    exact Tool.Compiler.byCalls_program
  have hlink : p.linkStage.source.ByCalls p.host.engine := by
    rw [linkStage, stage, htoolchain]
    exact Tool.Linker.byCalls_program
  intro s hs
  rw [stages, List.mem_append, List.mem_cons, List.mem_singleton] at hs
  obtain (rfl | rfl) | hs := hs
  · exact hcompile
  · exact hlink
  · split at hs
    · rw [List.mem_singleton.mp hs]
      exact hengine
    · cases hs

/-! ### What both requests come to -/

/-- What is handed back of a run whose third stage was invoked. -/
def ended (program : Invocation) : Except Failure RunResult × Console :=
  match program.result with
  | .error fault => (.error (.hostFault fault), program.shown)
  | .ok e =>
    (.ok ⟨if e.signal.isSuccess then .success else .failure 2 program.stage.name e.signal, none,
      toolReports ++ [⟨2, program.stage.name, e.signal⟩]⟩, program.shown)

theorem shown_ended (program : Invocation) : (ended program).2 = program.shown := by
  rw [ended]
  split <;> rfl

/-- Both tools have succeeded: one request reads the program that the linker left, the other runs
it. -/
structure Handover (p : Playground) (link : Invocation)
    (handed ran : Except Failure RunResult × Console) : Prop where
  /-- The download is announced after all that the tools have shown. -/
  handed_eq : handed = p.download ⟨.success, toolReports, link.left.fs⟩ link.shown
  /-- The third stage is invoked on what the linker left. -/
  ran_eq : ran = ended ⟨p.host.engine, p.runStage, link.left.fs, link.shown⟩
  /-- What the program shows comes after all that the tools have shown. -/
  text_eq : p.host.engine.ByCalls → ∃ journal,
    Invocation.HasJournal ⟨p.host.engine, p.runStage, link.left.fs, link.shown⟩ journal ∧
    ran.2.text = link.shown.text ++
      Invocation.passage ⟨p.host.engine, p.runStage, link.left.fs, link.shown⟩ journal
  /-- The bytes handed back are those from which the third stage compiles its module. -/
  program_eq {program : Bytes} :
    link.left.fs.query p.options.programPath Fs.read = .ok program →
      handed = (.ok ⟨.success, some program, toolReports⟩, link.shown.append p.downloadLine) ∧
        ∀ g : Guest, g.fs = link.left.fs →
          p.runStage.source.start p.host.engine g =
            (StageSource.bytes program).start p.host.engine g

/-- Two requests for one source, to hand the program back and to run it, have the work of the tools
in common. -/
structure SameTools (p : Playground) (release : Bool) (fs : Fs) (console : Console)
    (handed ran : Except Failure RunResult × Console) : Prop where
  handed_eq : handed = p.concluded ⟨release, false⟩
    (Pipeline.run p.host.engine fs console [p.compileStage release, p.linkStage])
  /-- The invocations of the tools tell what the stages of the first request come to. -/
  account : Account 0 fs console (p.tools release fs console)
    (Pipeline.run p.host.engine fs console [p.compileStage release, p.linkStage]).1
    (Pipeline.run p.host.engine fs console [p.compileStage release, p.linkStage]).2
  /-- The second request invokes the same tools on the same file systems and consoles. -/
  invoked_eq : (invoked p.host.engine fs console (p.stages ⟨release, true⟩)).take 2 =
    p.tools release fs console
  /-- If one of the tools does not succeed, the requests do not differ. -/
  failed : (∃ i ∈ p.tools release fs console, i.succeeded = false) →
    ran = handed ∧ ∀ result, handed.1 = .ok result →
      result.outcome ≠ .success ∧ result.artifact = none
  succeeded : (∀ i ∈ p.tools release fs console, i.succeeded = true) →
    ∃ link, (p.tools release fs console).getLast? = some link ∧ link.stage = p.linkStage ∧
      p.Handover link handed ran

variable {p release fs console}

/-- A run of the tools that is a success is a run in which all of them succeeded. -/
theorem not_success_of_failed (h : ∃ i ∈ p.tools release fs console, i.succeeded = false)
    {report : RunReport}
    (hreport : (Pipeline.run p.host.engine fs console
      [p.compileStage release, p.linkStage]).1 = .ok report) :
    report.outcome ≠ .success := by
  intro hsuccess
  obtain ⟨i, hi, hfailed⟩ := h
  have haccount := account_runFrom p.host.engine 0 fs console [p.compileStage release, p.linkStage]
  have hall := (haccount.success_iff hreport).1 hsuccess i hi
  rw [Invocation.succeeded, hall] at hfailed
  cases hfailed

/-- Both requests hand back the outcome of a run that is no success, and no program. -/
theorem concluded_of_not_success {report : RunReport} (h : report.outcome ≠ .success)
    (request : RunRequest) (console : Console) :
    p.concluded request (.ok report, console) =
      (.ok ⟨report.outcome, none, report.stages⟩, console) := by
  simp [concluded, RunOutcome.isSuccess, h]

/-- Nothing comes after tools of which one does not succeed. -/
theorem run_executed_of_failed (h : ∃ i ∈ p.tools release fs console, i.succeeded = false) :
    p.concluded ⟨release, true⟩ (Pipeline.run p.host.engine fs console (p.stages ⟨release, true⟩)) =
      p.concluded ⟨release, false⟩
        (Pipeline.run p.host.engine fs console [p.compileStage release, p.linkStage]) := by
  rw [stages_executed, run_append]
  rcases hrun : Pipeline.run p.host.engine fs console [p.compileStage release, p.linkStage] with
    ⟨fault | report, shown⟩
  · rfl
  · have hnot := not_success_of_failed h (congrArg Prod.fst hrun)
    simp only [RunOutcome.isSuccess, hnot, decide_false, Bool.false_eq_true, if_false]
    rw [concluded_of_not_success hnot, concluded_of_not_success hnot]

/-- No program is handed back if one of the tools does not succeed. -/
theorem no_artifact_of_failed (h : ∃ i ∈ p.tools release fs console, i.succeeded = false)
    {result : RunResult}
    (hresult : (p.concluded ⟨release, false⟩ (Pipeline.run p.host.engine fs console
      [p.compileStage release, p.linkStage])).1 = .ok result) :
    result.outcome ≠ .success ∧ result.artifact = none := by
  rcases hrun : Pipeline.run p.host.engine fs console [p.compileStage release, p.linkStage] with
    ⟨fault | report, shown⟩
  · rw [hrun] at hresult
    cases hresult
  · have hnot := not_success_of_failed h (congrArg Prod.fst hrun)
    rw [hrun, concluded_of_not_success hnot] at hresult
    cases hresult
    exact ⟨hnot, rfl⟩

/-- The third stage is compiled from the bytes in the file of the program. -/
theorem start_runStage {g : Guest} {program : Bytes}
    (h : g.fs.query p.options.programPath Fs.read = .ok program) :
    p.runStage.source.start p.host.engine g =
      (StageSource.bytes program).start p.host.engine g := by
  rw [runStage, stage]
  simp only [StageSource.start, StageSource.loadFile, h]

/-- A linker that succeeds leaves the program to both requests. -/
theorem handover_of_succeeded (h : ∀ i ∈ p.tools release fs console, i.succeeded = true) :
    ∃ link, (p.tools release fs console).getLast? = some link ∧ link.stage = p.linkStage ∧
      p.Handover link
        (p.concluded ⟨release, false⟩
          (Pipeline.run p.host.engine fs console [p.compileStage release, p.linkStage]))
        (p.concluded ⟨release, true⟩
          (Pipeline.run p.host.engine fs console (p.stages ⟨release, true⟩))) := by
  obtain ⟨link, hlast, hstage, hrun⟩ := run_of_tools_succeeded p release fs console h
  let third : Invocation := ⟨p.host.engine, p.runStage, link.left.fs, link.shown⟩
  have hhanded : p.concluded ⟨release, false⟩
      (Pipeline.run p.host.engine fs console [p.compileStage release, p.linkStage]) =
      p.download ⟨.success, toolReports, link.left.fs⟩ link.shown := by
    have htools := hrun []
    rw [List.append_nil] at htools
    rw [htools]
    rfl
  have hended : p.concluded ⟨release, true⟩
      (Pipeline.run p.host.engine fs console (p.stages ⟨release, true⟩)) = ended third := by
    rw [stages_executed, hrun]
    cases hresult : third.result with
    | error fault =>
      have hthird : p.runStage.run p.host.engine link.left.fs link.shown =
          (.error fault, third.left.fs, third.shown) := hresult ▸ third.run_eq
      rw [runFrom_fault hthird, ended, hresult]
      rfl
    | ok e =>
      have hthird : p.runStage.run p.host.engine link.left.fs link.shown =
          (.ok e, third.left.fs, third.shown) := hresult ▸ third.run_eq
      rw [runFrom_last hthird, ended, hresult]
      rfl
  refine ⟨link, hlast, hstage, ?_⟩
  constructor
  case handed_eq => exact hhanded
  case ran_eq => exact hended
  case text_eq =>
    intro hengine
    obtain ⟨journal, hjournal⟩ : ∃ journal, third.HasJournal journal :=
      StageSource.byCalls_start _ hengine
    refine ⟨journal, hjournal, ?_⟩
    rw [hended, shown_ended, Invocation.text_shown hjournal]
  case program_eq =>
    intro program hprogram
    constructor
    · rw [hhanded, download, hprogram]
    · intro g hg
      apply start_runStage
      rw [hg, hprogram]

/-- **A program that is handed back is the one that would be run.** Two requests for one source,
one to hand the program back and one to run it, come to the same if the seeds cannot be written or
one of the tools does not succeed, and nothing is handed back then. If both tools succeed, what they
show, report and leave is the same for both requests, and the bytes handed back are those from which
the module is compiled that the other request runs. -/
theorem run_handed_or_executed (p : Playground) (source : String) (release : Bool)
    (console : Console) :
    (∀ e, p.seeded source = .error e →
        ∀ execute, p.run source ⟨release, execute⟩ console = (.error e, console)) ∧
      ∀ fs, p.seeded source = .ok fs →
        p.SameTools release fs console (p.run source ⟨release, false⟩ console)
          (p.run source ⟨release, true⟩ console) := by
  constructor
  · intro e hseeded execute
    rw [run, hseeded]
  · intro fs hseeded
    rw [run_of_seeded hseeded, run_of_seeded hseeded]
    constructor
    case handed_eq => rfl
    case account => exact account_runFrom p.host.engine 0 fs console _
    case invoked_eq => exact take_invoked_executed p release fs console
    case failed =>
      intro hfailed
      refine ⟨run_executed_of_failed hfailed, ?_⟩
      intro result hresult
      exact no_artifact_of_failed hfailed hresult
    case succeeded =>
      intro hsucceeded
      exact handover_of_succeeded hsucceeded

/-- The program of a source that prints two values and ends with code three is handed back. -/
theorem run_handed_exit :
    let host : Host := ⟨.interpreter, fun _ => .zeros⟩
    ∃ fs link, ({ host, template := smallTemplate } : Playground).seeded exitSource = .ok fs ∧
      (({ host, template := smallTemplate } : Playground).tools true fs {}).getLast? = some link ∧
      ({ host, template := smallTemplate } : Playground).run exitSource ⟨true, false⟩ {} =
        (.ok ⟨.success, some (Bytes.ofText (linkedOf exitLines true).render), toolReports⟩,
          link.shown.append "$ download /program.wasm\n") := by
  intro host
  have hread : Source.read exitSource = .ok exitLines := by decide
  have hbuild : Buildable host smallTemplate exitSource exitLines true :=
    buildable_smallTemplate host (by decide) (by decide) (by decide +kernel)
  obtain ⟨fs, hseeded⟩ := hbuild.seeded
  have hsame := (run_handed_or_executed _ exitSource true {}).2 fs hseeded
  -- The tools succeed, since their run is a success.
  obtain ⟨fs', hprogram, hbuilt⟩ := runFrom_built hread hbuild hseeded {}
  have hrun := hbuilt []
  have haccount := hsame.account
  rw [hrun] at haccount
  have hsucceeded : ∀ i ∈ ({ host, template := smallTemplate } : Playground).tools true fs {},
      i.succeeded = true := by
    intro i hi
    rw [Invocation.succeeded, (haccount.success_iff rfl).1 rfl i hi]
    rfl
  obtain ⟨link, hlast, -, hhandover⟩ := hsame.succeeded hsucceeded
  have hleft : fs' = link.left.fs := by
    have hfs := haccount.fs_eq rfl
    rw [hlast] at hfs
    exact hfs
  have hquery : link.left.fs.query "/program.wasm" Fs.read =
      .ok (Bytes.ofText (linkedOf exitLines true).render) :=
    Snapshot.query_read_of_view (show Path.parse? "/program.wasm" = some ["program.wasm"] by decide)
      (Fs.view_eq_file_iff.2 (hleft ▸ hprogram))
  exact ⟨fs, link, hseeded, hlast, (hhandover.program_eq hquery).1⟩

end Playground

end StagedSandbox
