import StagedSandbox.Cli.Session
import StagedSandbox.Proofs.Stage.Run

/-!
# Sequences of stages

A pipeline invokes its stages one after the other, each on the file system that the one before it
left, up to the first that cannot be run or does not exit with code zero. The invocations tell the
whole run: what it shows, which stages it reports, and how it ends (`Pipeline.run_sequence`).
-/

namespace StagedSandbox

/-! ### Reports under later numbers -/

/-- An outcome, the stages counted from a later number on. -/
def RunOutcome.shift (offset : Nat) : RunOutcome → RunOutcome
  | .success => .success
  | .failure stage name signal => .failure (offset + stage) name signal

def StageReport.shift (offset : Nat) (r : StageReport) : StageReport :=
  { r with stage := offset + r.stage }

def RunReport.shift (offset : Nat) (r : RunReport) : RunReport :=
  ⟨r.outcome.shift offset, r.stages.map (StageReport.shift offset), r.fs⟩

/-- The report of a run that went on with further stages. -/
def RunReport.followedBy (first later : RunReport) : RunReport :=
  ⟨later.outcome, first.stages ++ later.stages, later.fs⟩

namespace Pipeline

/-! ### Invocations -/

/-- A stage with the engine that it may use, and the file system and the console that it starts
on. -/
structure Invocation where
  engine : Wasm.Engine
  stage : Stage
  fs : Fs
  console : Console

namespace Invocation

/-- How the start of the stage ends. -/
def result (i : Invocation) : Except HostFault StageSource.Execution :=
  (i.stage.source.start i.engine (i.stage.guest i.fs i.console)).1

/-- The guest that the stage leaves. -/
def left (i : Invocation) : Guest :=
  (i.stage.source.start i.engine (i.stage.guest i.fs i.console)).2

/-- What is told about the end of the stage. -/
def told (i : Invocation) : String :=
  match i.result with
  | .ok e => i.stage.report e
  | .error fault => Stage.hostReport fault

/-- The console after the stage. -/
def shown (i : Invocation) : Console :=
  i.left.finish.console.append (i.told ++ "\n")

/-- How the stage ended, if it could be run. -/
def signal? (i : Invocation) : Option Signal :=
  match i.result with
  | .ok e => some e.signal
  | .error _ => none

/-- Whether the stage exited with code zero. -/
def succeeded (i : Invocation) : Bool := i.signal? = some (.exited 0)

/-- The report of a stage that ended, under its number. -/
def report? (i : Invocation) (number : Nat) : Option StageReport :=
  i.signal?.map fun signal => ⟨number, i.stage.name, signal⟩

theorem run_eq (i : Invocation) :
    i.stage.run i.engine i.fs i.console = (i.result, i.left.fs, i.shown) := rfl

theorem signal?_of_ok {i : Invocation} {e : StageSource.Execution} (h : i.result = .ok e) :
    i.signal? = some e.signal := by
  rw [signal?, h]

theorem signal?_of_error {i : Invocation} {fault : HostFault} (h : i.result = .error fault) :
    i.signal? = none := by
  rw [signal?, h]

theorem report?_of_ok {i : Invocation} {e : StageSource.Execution} (h : i.result = .ok e)
    (number : Nat) : i.report? number = some ⟨number, i.stage.name, e.signal⟩ := by
  rw [report?, signal?_of_ok h, Option.map_some]

theorem succeeded_of_ok {i : Invocation} {e : StageSource.Execution} (h : i.result = .ok e) :
    i.succeeded = e.signal.isSuccess := by
  simp only [succeeded, signal?_of_ok h, Signal.isSuccess, Option.some.injEq]

theorem succeeded_of_error {i : Invocation} {fault : HostFault} (h : i.result = .error fault) :
    i.succeeded = false := by
  simp only [succeeded, signal?_of_error h, reduceCtorEq, decide_false]

end Invocation

/-- Every stage, invoked on what the stage before it left. -/
def chain (engine : Wasm.Engine) (fs : Fs) (console : Console) : List Stage → List Invocation
  | [] => []
  | s :: rest =>
    let i : Invocation := ⟨engine, s, fs, console⟩
    i :: chain engine i.left.fs i.shown rest

/-- The invocations up to the first that does not succeed. -/
def invoked (engine : Wasm.Engine) (fs : Fs) (console : Console) (stages : List Stage) :
    List Invocation :=
  let all := chain engine fs console stages
  all.take (all.findIdx (fun i => !i.succeeded) + 1)

section Invoked

variable (engine : Wasm.Engine) (fs : Fs) (console : Console)

theorem map_stage_chain (stages : List Stage) :
    (chain engine fs console stages).map (·.stage) = stages := by
  induction stages generalizing fs console with
  | nil => rfl
  | cons s rest ih => simp only [chain, List.map_cons, ih]

theorem engine_of_mem_invoked (stages : List Stage) :
    ∀ i ∈ invoked engine fs console stages, i.engine = engine := by
  have hchain : ∀ i ∈ chain engine fs console stages, i.engine = engine := by
    induction stages generalizing fs console with
    | nil => exact nofun
    | cons s rest ih =>
      rw [chain, List.forall_mem_cons]
      exact ⟨rfl, ih _ _⟩
  exact fun i hi => hchain i (List.mem_of_mem_take hi)

theorem map_stage_invoked (stages : List Stage) :
    (invoked engine fs console stages).map (·.stage) =
      stages.take (invoked engine fs console stages).length := by
  have htake := congrArg (List.take (invoked engine fs console stages).length)
    (map_stage_chain engine fs console stages)
  rw [← htake, ← List.map_take, invoked, List.length_take, List.take_eq_take_min]

theorem invoked_cons_of_succeeded {s : Stage}
    (h : (Invocation.mk engine s fs console).succeeded = true) (rest : List Stage) :
    invoked engine fs console (s :: rest) = ⟨engine, s, fs, console⟩ ::
      invoked engine (Invocation.mk engine s fs console).left.fs
        (Invocation.mk engine s fs console).shown rest := by
  simp only [invoked, chain, List.findIdx_cons, List.take_succ_cons, h, Bool.not_true, cond_false]

theorem invoked_cons_of_not_succeeded {s : Stage}
    (h : (Invocation.mk engine s fs console).succeeded = false) (rest : List Stage) :
    invoked engine fs console (s :: rest) = [⟨engine, s, fs, console⟩] := by
  simp only [invoked, chain, List.findIdx_cons, List.take_succ_cons, h, Bool.not_false, cond_true,
    List.take_zero]

theorem invoked_singleton (s : Stage) :
    invoked engine fs console [s] = [⟨engine, s, fs, console⟩] := by
  simp [invoked, chain]

/-- All stages are invoked if none of those invoked fails. -/
theorem length_invoked_of_succeeded {stages : List Stage}
    (h : ∀ i ∈ invoked engine fs console stages, i.succeeded = true) :
    (invoked engine fs console stages).length = stages.length := by
  induction stages generalizing fs console with
  | nil => rfl
  | cons s rest ih =>
    have hs : (Invocation.mk engine s fs console).succeeded = true := by
      cases hs : (Invocation.mk engine s fs console).succeeded with
      | true => rfl
      | false =>
        rw [invoked_cons_of_not_succeeded _ _ _ hs] at h
        exact hs.symm.trans (h _ (List.mem_singleton_self _))
    rw [invoked_cons_of_succeeded _ _ _ hs] at h ⊢
    rw [List.length_cons, ih _ _ (List.forall_mem_cons.mp h).2, List.length_cons]

end Invoked

/-! ### Runs told by their invocations -/

/-- What a run comes to, told by its invocations. The stages are counted from a given number on. -/
structure Account (number : Nat) (fs : Fs) (console : Console) (invocations : List Invocation)
    (result : Except HostFault RunReport) (shown : Console) : Prop where
  /-- The console is as the last invocation left it. -/
  shown_eq : shown = (invocations.getLast?.map (·.shown)).getD console
  /-- The run is a host fault exactly if the last stage could not be run. -/
  fault_iff (fault : HostFault) :
    result = .error fault ↔ invocations.getLast?.map (·.result) = some (.error fault)
  /-- Each invocation has its report, in order. -/
  stages_eq {report : RunReport} : result = .ok report →
    report.stages.map some = (invocations.zipIdx number).map fun entry => entry.1.report? entry.2
  /-- The run is a success exactly if each stage exited with code zero. -/
  success_iff {report : RunReport} : result = .ok report →
    (report.outcome = .success ↔ ∀ i ∈ invocations, i.signal? = some (.exited 0))
  /-- A failure names the last stage. -/
  failure_eq {report : RunReport} : result = .ok report → report.outcome ≠ .success →
    ∃ last signal, invocations.getLast? = some last ∧ last.signal? = some signal ∧
      report.outcome = .failure (number + (invocations.length - 1)) last.stage.name signal
  /-- The file system is as the last invocation left it. -/
  fs_eq {report : RunReport} : result = .ok report →
    report.fs = (invocations.getLast?.map (·.left.fs)).getD fs

/-- What is left by the last of several invocations. -/
theorem last_cons {α : Type} (view : Invocation → α) (first : Invocation)
    (later : List Invocation) (default : α) :
    ((first :: later).getLast?.map view).getD default =
      (later.getLast?.map view).getD (view first) := by
  rw [List.getLast?_cons]
  cases later.getLast? <;> rfl

namespace Account

variable {number : Nat} {fs : Fs} {console : Console}

theorem nil : Account number fs console [] (.ok ⟨.success, [], fs⟩) console where
  shown_eq := rfl
  fault_iff fault := by simp
  stages_eq := by
    rintro report ⟨⟩
    rfl
  success_iff := by
    rintro report ⟨⟩
    simp
  failure_eq := by
    rintro report ⟨⟩ hfailed
    exact absurd rfl hfailed
  fs_eq := by
    rintro report ⟨⟩
    rfl

theorem fault {i : Invocation} {fault : HostFault} (h : i.result = .error fault) :
    Account number fs console [i] (.error fault) i.shown where
  shown_eq := rfl
  fault_iff := by simp [h]
  stages_eq := nofun
  success_iff := nofun
  failure_eq := nofun
  fs_eq := nofun

theorem failure {i : Invocation} {e : StageSource.Execution} (h : i.result = .ok e)
    (he : e.signal.isSuccess = false) :
    Account number fs console [i]
      (.ok ⟨.failure number i.stage.name e.signal, [⟨number, i.stage.name, e.signal⟩], i.left.fs⟩)
      i.shown where
  shown_eq := rfl
  fault_iff := by simp [h]
  stages_eq := by
    rintro report ⟨⟩
    simp [Invocation.report?_of_ok h]
  success_iff := by
    have hsignal : e.signal ≠ .exited 0 := of_decide_eq_false he
    rintro report ⟨⟩
    simp [Invocation.signal?_of_ok h, hsignal]
  failure_eq := by
    rintro report ⟨⟩ -
    exact ⟨i, e.signal, rfl, Invocation.signal?_of_ok h, rfl⟩
  fs_eq := by
    rintro report ⟨⟩
    rfl

/-- A stage that succeeds comes in front of the account of the stages after it. -/
theorem cons {i : Invocation} {e : StageSource.Execution} (h : i.result = .ok e)
    (he : e.signal.isSuccess = true) {later : List Invocation}
    {result : Except HostFault RunReport} {shown : Console}
    (hlater : Account (number + 1) i.left.fs i.shown later result shown) :
    Account number fs console (i :: later)
      (result.map (RunReport.addFirst ⟨number, i.stage.name, e.signal⟩)) shown := by
  have hsignal : e.signal = .exited 0 := of_decide_eq_true he
  constructor
  case shown_eq =>
    rw [hlater.shown_eq, last_cons]
  case fault_iff =>
    intro fault
    have hmap : result.map (RunReport.addFirst ⟨number, i.stage.name, e.signal⟩) = .error fault ↔
        result = .error fault := by
      cases result <;> simp [Except.map]
    rw [hmap, hlater.fault_iff, List.getLast?_cons]
    cases later.getLast? with
    | none => simp [h]
    | some last => rfl
  all_goals
    intro report hreport
    obtain ⟨rest, rfl, rfl⟩ : ∃ rest, result = .ok rest ∧
        RunReport.addFirst ⟨number, i.stage.name, e.signal⟩ rest = report := by
      cases result with
      | error fault => cases hreport
      | ok rest => exact ⟨rest, rfl, Except.ok.inj hreport⟩
  case stages_eq =>
    rw [RunReport.addFirst, List.map_cons, hlater.stages_eq rfl, List.zipIdx_cons, List.map_cons,
      Invocation.report?_of_ok h]
  case success_iff =>
    rw [RunReport.addFirst, hlater.success_iff rfl, List.forall_mem_cons,
      Invocation.signal?_of_ok h, hsignal]
    simp
  case failure_eq =>
    intro hfailed
    obtain ⟨last, signal, hlast, hlastSignal, houtcome⟩ := hlater.failure_eq rfl hfailed
    have hlength : 0 < later.length := by
      cases later with
      | nil => cases hlast
      | cons => apply Nat.succ_pos
    refine ⟨last, signal, ?_, hlastSignal, ?_⟩
    · rw [List.getLast?_cons, hlast, Option.getD_some]
    · rw [RunReport.addFirst, houtcome, List.length_cons]
      congr 1
      omega
  case fs_eq =>
    rw [RunReport.addFirst, hlater.fs_eq rfl, last_cons]

end Account

section Runs

variable (engine : Wasm.Engine)

/-- Every run is told by its invocations. -/
theorem account_runFrom (number : Nat) (fs : Fs) (console : Console) (stages : List Stage) :
    Account number fs console (invoked engine fs console stages)
      (runFrom engine number fs console stages).1 (runFrom engine number fs console stages).2 := by
  induction stages generalizing number fs console with
  | nil => exact .nil
  | cons s rest ih =>
    let i : Invocation := ⟨engine, s, fs, console⟩
    have hrun : s.run engine fs console = (i.result, i.left.fs, i.shown) := i.run_eq
    cases hresult : i.result with
    | error fault =>
      rw [hresult] at hrun
      rw [runFrom_fault hrun,
        invoked_cons_of_not_succeeded _ _ _ (Invocation.succeeded_of_error hresult)]
      exact .fault hresult
    | ok e =>
      rw [hresult] at hrun
      cases he : e.signal.isSuccess with
      | false =>
        rw [runFrom_failure hrun he,
          invoked_cons_of_not_succeeded _ _ _ ((Invocation.succeeded_of_ok hresult).trans he)]
        exact .failure hresult he
      | true =>
        rw [runFrom_success hrun he,
          invoked_cons_of_succeeded _ _ _ ((Invocation.succeeded_of_ok hresult).trans he)]
        exact .cons hresult he (ih (number + 1) i.left.fs i.shown)

/-! ### Stages that go on where others stopped -/

/-- A stage that succeeds hands over to those behind it. -/
theorem Invocation.runFrom_of_succeeded {i : Invocation} (h : i.succeeded = true) (number : Nat)
    (rest : List Stage) :
    runFrom i.engine number i.fs i.console (i.stage :: rest) =
      ((runFrom i.engine (number + 1) i.left.fs i.shown rest).1.map
          (RunReport.addFirst ⟨number, i.stage.name, .exited 0⟩),
        (runFrom i.engine (number + 1) i.left.fs i.shown rest).2) := by
  have hrun := i.run_eq
  cases hresult : i.result with
  | error fault =>
    rw [succeeded_of_error hresult] at h
    cases h
  | ok e =>
    rw [succeeded_of_ok hresult] at h
    rw [hresult] at hrun
    rw [runFrom_success hrun h, show e.signal = .exited 0 from of_decide_eq_true h]

theorem runFrom_add (offset number : Nat) (fs : Fs) (console : Console) (stages : List Stage) :
    runFrom engine (offset + number) fs console stages =
      ((runFrom engine number fs console stages).1.map (RunReport.shift offset),
        (runFrom engine number fs console stages).2) := by
  induction stages generalizing number fs console with
  | nil => rfl
  | cons s rest ih =>
    obtain ⟨result, fs', console', hrun⟩ : ∃ result fs' console',
      s.run engine fs console = (result, fs', console') := ⟨_, _, _, rfl⟩
    cases result with
    | error fault => simp only [runFrom_fault hrun, Except.map]
    | ok e =>
      cases he : e.signal.isSuccess with
      | false => simp [runFrom_failure hrun he, Except.map, RunReport.shift, RunOutcome.shift,
          StageReport.shift]
      | true =>
        simp only [runFrom_success hrun he, Nat.add_assoc, ih]
        cases (runFrom engine (number + 1) fs' console' rest).1 <;> rfl

/-- Stages after others run on what these left, if all of these succeeded. -/
theorem runFrom_append (number : Nat) (fs : Fs) (console : Console) (first later : List Stage) :
    runFrom engine number fs console (first ++ later) =
      match runFrom engine number fs console first with
      | (.error fault, console) => (.error fault, console)
      | (.ok report, console) =>
        if report.outcome.isSuccess then
          let (result, console) := runFrom engine (number + first.length) report.fs console later
          (result.map report.followedBy, console)
        else (.ok report, console) := by
  induction first generalizing number fs console with
  | nil =>
    have hmap : (RunReport.followedBy ⟨.success, [], fs⟩ : RunReport → RunReport) = id := rfl
    simp [runFrom, RunOutcome.isSuccess, hmap]
  | cons s rest ih =>
    obtain ⟨result, fs', console', hrun⟩ : ∃ result fs' console',
      s.run engine fs console = (result, fs', console') := ⟨_, _, _, rfl⟩
    cases result with
    | error fault => simp only [List.cons_append, runFrom_fault hrun]
    | ok e =>
      cases he : e.signal.isSuccess with
      | false => simp [List.cons_append, runFrom_failure hrun he, RunOutcome.isSuccess]
      | true =>
        have hnumber : number + 1 + rest.length = number + (s :: rest).length := by
          rw [List.length_cons, Nat.add_right_comm, Nat.add_assoc]
        rw [List.cons_append, runFrom_success hrun he, runFrom_success hrun he, ih, hnumber]
        obtain ⟨report, shown⟩ := runFrom engine (number + 1) fs' console' rest
        cases report with
        | error fault => rfl
        | ok report =>
          simp only [Except.map, RunReport.addFirst]
          cases report.outcome.isSuccess with
          | false => rfl
          | true =>
            obtain ⟨_ | _, _⟩ :=
              runFrom engine (number + (s :: rest).length) report.fs shown later <;> rfl

theorem run_append (fs : Fs) (console : Console) (first later : List Stage) :
    run engine fs console (first ++ later) =
      match run engine fs console first with
      | (.error fault, console) => (.error fault, console)
      | (.ok report, console) =>
        if report.outcome.isSuccess then
          let (result, console) := run engine report.fs console later
          (result.map fun further => report.followedBy (further.shift first.length), console)
        else (.ok report, console) := by
  simp only [run, runFrom_append, Nat.add_comm 0 first.length, runFrom_add engine first.length 0]
  obtain ⟨fault | report, shown⟩ := runFrom engine 0 fs console first
  · rfl
  · simp only
    cases report.outcome.isSuccess with
    | false => rfl
    | true => obtain ⟨_ | _, _⟩ := runFrom engine 0 report.fs shown later <;> rfl

/-- Stages behind others are invoked on what these left, if all of these succeeded. -/
theorem invoked_append (fs : Fs) (console : Console) (stages later : List Stage) :
    invoked engine fs console (stages ++ later) =
      if ∀ i ∈ invoked engine fs console stages, i.succeeded = true then
        invoked engine fs console stages ++
          invoked engine (((invoked engine fs console stages).getLast?.map (·.left.fs)).getD fs)
            (((invoked engine fs console stages).getLast?.map (·.shown)).getD console) later
      else invoked engine fs console stages := by
  induction stages generalizing fs console with
  | nil => simp [invoked, chain]
  | cons s rest ih =>
    rw [List.cons_append]
    cases hs : (Invocation.mk engine s fs console).succeeded with
    | false =>
      rw [invoked_cons_of_not_succeeded _ _ _ hs, invoked_cons_of_not_succeeded _ _ _ hs, if_neg]
      intro hall
      have hfirst := hall _ (List.mem_singleton_self _)
      rw [hs] at hfirst
      cases hfirst
    | true =>
      rw [invoked_cons_of_succeeded _ _ _ hs, invoked_cons_of_succeeded _ _ _ hs, ih]
      simp only [List.forall_mem_cons, hs, true_and, last_cons]
      split
      · rw [List.cons_append]
      · rfl

/-- Only the stages invoked matter once one of them does not succeed. -/
theorem runFrom_take_append (number : Nat) (fs : Fs) (console : Console) (stages : List Stage)
    (later : List Stage) (h : ∃ i ∈ invoked engine fs console stages, i.succeeded = false) :
    runFrom engine number fs console
        (stages.take (invoked engine fs console stages).length ++ later) =
      runFrom engine number fs console stages := by
  induction stages generalizing number fs console with
  | nil =>
    obtain ⟨i, hi, -⟩ := h
    cases hi
  | cons s rest ih =>
    let i : Invocation := ⟨engine, s, fs, console⟩
    have hrun : s.run engine fs console = (i.result, i.left.fs, i.shown) := i.run_eq
    cases hresult : i.result with
    | error fault =>
      rw [hresult] at hrun
      rw [invoked_cons_of_not_succeeded _ _ _ (Invocation.succeeded_of_error hresult)]
      exact (runFrom_fault hrun _).trans (runFrom_fault hrun _).symm
    | ok e =>
      rw [hresult] at hrun
      have hsucceeded := Invocation.succeeded_of_ok hresult
      cases he : e.signal.isSuccess with
      | false =>
        rw [invoked_cons_of_not_succeeded _ _ _ (hsucceeded.trans he)]
        exact (runFrom_failure hrun he _).trans (runFrom_failure hrun he _).symm
      | true =>
        rw [invoked_cons_of_succeeded _ _ _ (hsucceeded.trans he)] at h ⊢
        have hrest : ∃ j ∈ invoked engine i.left.fs i.shown rest, j.succeeded = false := by
          obtain ⟨j, hj, hfailed⟩ := h
          obtain rfl | hj := List.mem_cons.mp hj
          · cases hfailed.symm.trans (hsucceeded.trans he)
          · exact ⟨j, hj, hfailed⟩
        rw [List.length_cons, List.take_succ_cons, List.cons_append, runFrom_success hrun he,
          runFrom_success hrun he, ih (number + 1) i.left.fs i.shown hrest]

end Runs

/-! ### The status of a run -/

theorem exitStatus_error_ne_zero (e : Failure) : Cli.exitStatus (.error e) ≠ 0 := by
  intro hzero
  rw [Cli.exitStatus] at hzero
  split at hzero
  case isTrue hrange =>
    have hmod := congrArg UInt8.toNat hzero
    rw [UInt8.toNat_ofNat', UInt8.toNat_zero] at hmod
    omega
  case isFalse => cases hzero

/-- Only a run that succeeds is told by status zero. -/
theorem exitStatus_eq_zero_iff (o : RunOutcome) :
    Cli.exitStatus o.result = 0 ↔ o = .success := by
  cases o with
  | success => simp [RunOutcome.result, Cli.exitStatus]
  | failure stage name signal =>
    have herror : ∃ e, (RunOutcome.failure stage name signal).result = .error e := by
      cases signal <;> exact ⟨_, rfl⟩
    obtain ⟨e, he⟩ := herror
    rw [he]
    exact iff_of_false (exitStatus_error_ne_zero e) nofun

/-- **A pipeline runs its stages in order and stops at the first that does not succeed.** The
stages invoked are the first ones, and all if none fails; once one fails, it makes no difference
what would come after it; the invocations tell what the run comes to (`Account`). Stages put behind
others run on what these left, if they succeeded, and the status of the process is zero for a
success alone. -/
theorem run_sequence (engine : Wasm.Engine) (fs : Fs) (console : Console) (stages : List Stage) :
    (invoked engine fs console stages).map (·.stage) =
        stages.take (invoked engine fs console stages).length ∧
      ((∀ i ∈ invoked engine fs console stages, i.succeeded = true) →
        (invoked engine fs console stages).length = stages.length) ∧
      ((∃ i ∈ invoked engine fs console stages, i.succeeded = false) → ∀ later,
        run engine fs console (stages.take (invoked engine fs console stages).length ++ later) =
          run engine fs console stages) ∧
      Account 0 fs console (invoked engine fs console stages) (run engine fs console stages).1
        (run engine fs console stages).2 ∧
      (∀ later, run engine fs console (stages ++ later) =
        match run engine fs console stages with
        | (.error fault, console) => (.error fault, console)
        | (.ok report, console) =>
          if report.outcome.isSuccess then
            let (result, console) := run engine report.fs console later
            (result.map fun further => report.followedBy (further.shift stages.length), console)
          else (.ok report, console)) ∧
      ∀ outcome : RunOutcome, Cli.exitStatus outcome.result = 0 ↔ outcome = .success := by
  refine ⟨map_stage_invoked engine fs console stages,
    length_invoked_of_succeeded engine fs console, ?_, account_runFrom engine 0 fs console stages,
    run_append engine fs console stages, exitStatus_eq_zero_iff⟩
  intro hfailed later
  exact runFrom_take_append engine 0 fs console stages later hfailed

end Pipeline

end StagedSandbox
