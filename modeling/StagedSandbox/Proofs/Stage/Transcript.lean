import StagedSandbox.Proofs.Stage.Sequence
import StagedSandbox.Proofs.Tool.Journal
import StagedSandbox.Proofs.Wasi.Journal

/-!
# The transcript of a run

A run adds one passage to the transcript for each stage that it invokes, in order: the command
line, what the stage wrote to its two streams, how it ended, and an empty line
(`Pipeline.run_transcript`). A passage is told by the calls of its own stage alone, so nothing that
one stage has written shows in the passage of another, or changes how that is decoded.
-/

namespace StagedSandbox

open StagedSandbox.Action

/-- A native program has nothing but system calls to act on its guest, and nor has a module that a
stage may start. -/
def StageSource.ByCalls (engine : Wasm.Engine) : StageSource → Prop
  | .native tool => Leads Guest.ByCalls tool.program
  | .compiled module => module.ByCalls
  | .bytes data => ∀ module, engine.compile data = .ok module → module.ByCalls
  | .file _ => engine.ByCalls

namespace StageSource

variable {engine : Wasm.Engine} (g : Guest)

theorem byCalls_startModule {module : Wasm.Module} (h : module.ByCalls) :
    Guest.ByCalls g (startModule module g).2 := by
  have hinstantiate := h.instantiate g
  cases hi : module.instantiate g with
  | mk result g' =>
    rw [hi] at hinstantiate
    rw [startModule, hi]
    cases result with
    | error message => exact hinstantiate
    | ok i =>
      dsimp only
      cases hentry : i.entry with
      | error message => exact hinstantiate
      | ok entry =>
        have hrun := h.entry hi hentry
        dsimp only
        cases hcall : entry g' with
        | mk ended g'' =>
          rw [hcall] at hrun
          have hboth := Trans.trans hinstantiate hrun
          cases ended <;> exact hboth

theorem compile_ok {data : Bytes} {module : Wasm.Module} (h : compile engine data = .ok module) :
    engine.compile data = .ok module := mapError_eq_ok.mp h

theorem byCalls_start {source : StageSource} (h : source.ByCalls engine) :
    Guest.ByCalls g (source.start engine g).2 := by
  cases source with
  | native tool =>
    have hrun : (tool.program.run g).2 = left tool.program g := by
      rw [Native.run, left]
      cases tool.program g <;> rfl
    change Guest.ByCalls g (tool.program.run g).2
    rw [hrun]
    exact h g
  | compiled module => exact byCalls_startModule g h
  | bytes data =>
    rw [start]
    split
    · next module hcompile => exact byCalls_startModule g (h module (compile_ok hcompile))
    · exact Std.Refl.refl g
  | file path =>
    rw [start]
    split
    · next module hload =>
      rw [loadFile] at hload
      split at hload
      · exact byCalls_startModule g (h _ module (compile_ok hload))
      · cases hload
    · exact Std.Refl.refl g

end StageSource

namespace Pipeline

namespace Invocation

/-- The calls of an invoked stage and their replies are those of a journal. -/
def HasJournal (i : Invocation) (journal : Journal) : Prop :=
  (i.stage.guest i.fs i.console).Session journal i.left

/-- What the transcript says about the end of an invoked stage. -/
def ending (i : Invocation) : String :=
  match i.result with
  | .ok ⟨.exited code, trace⟩ =>
    if code = 0 then "" else
      "\n\n" ++ trace.getD "" ++ "\nexit code: " ++ Text.signed code.toInt ++ "\n"
  | .ok ⟨.killed signal, _⟩ =>
    "fatal: " ++ i.stage.name ++ " terminated abnormally (killed by signal " ++
      Text.signed signal.toInt ++ ")\n"
  | .ok ⟨.faulted fault, _⟩ =>
    "fatal: " ++ i.stage.name ++ " terminated abnormally (fault: " ++ fault.message ++ ")\n"
  | .error (.cannotLoad path e) =>
    "host error: cannot load module " ++ path ++ ": " ++ e.message ++ "\n"
  | .error (.engine message) => "host error: " ++ message ++ "\n"

/-- What an invoked stage with a given journal adds to the transcript. -/
def passage (i : Invocation) (journal : Journal) : String :=
  "$ " ++ " ".intercalate i.stage.arguments ++ "\n" ++ String.ofList journal.output ++ i.ending ++
    "\n"

theorem told_eq_ending (i : Invocation) : i.told = i.ending := by
  rw [told, ending]
  match i.result with
  | .ok ⟨.exited code, trace⟩ => rfl
  | .ok ⟨.killed signal, trace⟩ => exact i.stage.report_killed signal trace
  | .ok ⟨.faulted fault, trace⟩ => exact i.stage.report_faulted fault trace
  | .error (.cannotLoad path e) => exact Stage.hostReport_cannotLoad path e
  | .error (.engine message) => rfl

theorem text_shown {i : Invocation} {journal : Journal} (h : i.HasJournal journal) :
    i.shown.text = i.console.text ++ i.passage journal := by
  have hfinish := h.text_finish (Guest.streams_start _ _ _ _ _ _)
  have hheld : (i.stage.guest i.fs i.console).held = fun _ => [] := by
    funext fd
    simp [Guest.held, Stage.guest, Guest.start]
  rw [hheld] at hfinish
  rw [shown, told_eq_ending, Console.text_append, hfinish, passage, Journal.output]
  simp only [Stage.guest, Guest.start, Console.text_append, Stage.commandLine, String.append_assoc]

end Invocation

variable (engine : Wasm.Engine) (fs : Fs) (console : Console)

/-- The console of a run holds the passages of the invoked stages. -/
theorem text_invoked (stages : List Stage) {journal : Invocation → Journal}
    (h : ∀ i ∈ invoked engine fs console stages, i.HasJournal (journal i)) :
    (((invoked engine fs console stages).getLast?.map (·.shown)).getD console).text =
      console.text ++
        String.join ((invoked engine fs console stages).map fun i => i.passage (journal i)) := by
  induction stages generalizing fs console with
  | nil => exact String.append_empty.symm
  | cons s rest ih =>
    cases hs : (Invocation.mk engine s fs console).succeeded with
    | false =>
      rw [invoked_cons_of_not_succeeded _ _ _ hs] at h ⊢
      have htext := Invocation.text_shown (h _ (List.mem_singleton_self _))
      simpa using htext
    | true =>
      rw [invoked_cons_of_succeeded _ _ _ hs] at h ⊢
      obtain ⟨hfirst, hrest⟩ := List.forall_mem_cons.mp h
      have htext := Invocation.text_shown hfirst
      have hlater := ih _ _ hrest
      rw [htext] at hlater
      rw [last_cons, List.map_cons, String.join_cons, ← String.append_assoc, hlater]

/-- **Each invoked stage has its own passage in the transcript.** There are journals of the calls
that the invoked stages have made, and whichever journals tell of these calls, the run has shown the
passages told by them, in order. In a passage each stream shows the lossy reading of all that was
written to it, whatever was written to the other one in between. -/
theorem run_transcript {stages : List Stage} (h : ∀ s ∈ stages, s.source.ByCalls engine) :
    (∃ journal : Invocation → Journal,
      ∀ i ∈ invoked engine fs console stages, i.HasJournal (journal i)) ∧
    ∀ journal : Invocation → Journal,
      (∀ i ∈ invoked engine fs console stages, i.HasJournal (journal i)) →
      (run engine fs console stages).2.text = console.text ++
          String.join ((invoked engine fs console stages).map fun i => i.passage (journal i)) ∧
        ∀ i ∈ invoked engine fs console stages, ∀ fd, fd = 1 ∨ fd = 2 →
          let writes := (journal i).streamWrites
          (((Journal.pieces (fun _ => []) writes).filter (·.1 = fd)).flatMap Prod.snd =
            Text.Utf8.lossy ((writes.filter (·.1 = fd)).flatMap Prod.snd)) := by
  refine ⟨?_, fun journal hjournals => ⟨?_, ?_⟩⟩
  · have hjournals : ∀ i : Invocation, ∃ journal,
        i ∈ invoked engine fs console stages → i.HasJournal journal := by
      intro i
      by_cases hi : i ∈ invoked engine fs console stages
      · have hstage : i.stage ∈ stages := by
          have hmem := List.mem_map_of_mem (f := (·.stage)) hi
          rw [map_stage_invoked] at hmem
          exact List.mem_of_mem_take hmem
        have hcalls := h i.stage hstage
        rw [← engine_of_mem_invoked engine fs console stages i hi] at hcalls
        obtain ⟨journal, hjournal⟩ := StageSource.byCalls_start _ hcalls
        exact ⟨journal, fun _ => hjournal⟩
      · exact ⟨[], fun hmem => absurd hmem hi⟩
    choose journal hjournal using hjournals
    exact ⟨journal, hjournal⟩
  · rw [run, (account_runFrom engine 0 fs console stages).shown_eq]
    exact text_invoked engine fs console stages hjournals
  · intro i _ fd hfd
    exact Journal.pieces_stream hfd (Or.inl rfl) _

/-- An engine that compiles a single zero to a module which exits with code three, and tells where
it did so. -/
def exitingEngine : Wasm.Engine where
  compile data :=
    if data = ⟨#[0]⟩ then
      let entry (g : Guest) : Except Wasm.CallError Unit × Guest :=
        (.error { backtrace := some "in start", stop := some (.exit 3), message := "exit" }, g)
      .ok ⟨fun g => (.ok ⟨.ok entry⟩, g)⟩
    else .error "no such module"

theorem byCalls_exitingEngine : exitingEngine.ByCalls := by
  intro data module hcompile
  simp only [exitingEngine] at hcompile
  split at hcompile
  · obtain rfl := Except.ok.inj hcompile
    constructor
    case instantiate => exact fun g => Std.Refl.refl g
    case entry =>
      intro g g' i entry h hentry
      obtain ⟨hi, rfl⟩ := Prod.mk.inj h
      obtain rfl := Except.ok.inj hi
      obtain rfl := Except.ok.inj hentry
      exact Std.Refl.refl g
  · cases hcompile

/-- A stage with only a name, which is also its one argument. -/
def bareStage (name : String) (source : StageSource) : Stage :=
  { name, source, arguments := [name], entropy := .zeros }

/-- Runs that end in each of the ways in which a run can end, with what they show. In the first one
characters are cut in two on both streams: a stage does not complete all of them, and what the next
one writes does not complete them either; the last stage is not invoked. -/
theorem run_transcript_endings :
    let script (steps : List ScriptStep) := StageSource.native ⟨"script", .ofScript true steps⟩
    let runs : List (List Stage × String) :=
      [([bareStage "split" (script [.call (.write 1 ⟨#[0xe2, 0x82]⟩),
            .call (.write 2 ⟨#[0x78, 0xc3]⟩), .call (.write 1 ⟨#[0xac, 0xe2]⟩)]),
          bareStage "rest" (script [.call (.write 2 ⟨#[0xa9, 0x21]⟩), .stop (.exit (-1))]),
          bareStage "never" (script [])],
        "$ split\nx€\uFFFD\uFFFD\n$ rest\n\uFFFD!\n\n\nexit code: -1\n\n"),
        ([bareStage "module" (.bytes ⟨#[0]⟩)],
          "$ module\n\n\nin start\nexit code: 3\n\n"),
        ([bareStage "killed" (script [.call (.write 1 ⟨#[0x21]⟩), .stop (.kill 6)])],
          "$ killed\n!fatal: killed terminated abnormally (killed by signal 6)\n\n"),
        ([bareStage "faulted" (script [.fault "out of paper"])],
          "$ faulted\nfatal: faulted terminated abnormally (fault: out of paper)\n\n"),
        ([bareStage "absent" (.file "/m")],
          "$ absent\nhost error: cannot load module /m: no such file or directory: /m\n\n"),
        ([bareStage "refused" (.bytes ⟨#[1]⟩)], "$ refused\nhost error: no such module\n\n")]
    ∀ entry ∈ runs, (∀ s ∈ entry.1, s.source.ByCalls exitingEngine) ∧
      ∃ journal : Invocation → Journal,
        (∀ i ∈ invoked exitingEngine [] {} entry.1, i.HasJournal (journal i)) ∧
          String.join ((invoked exitingEngine [] {} entry.1).map
            fun i => i.passage (journal i)) = entry.2 := by
  intro script runs
  have hscript (steps : List ScriptStep) : (script steps).ByCalls exitingEngine :=
    Native.byCalls_ofScript _ _
  have hbytes (data : Bytes) : (StageSource.bytes data).ByCalls exitingEngine :=
    byCalls_exitingEngine data
  have hcalls : ∀ entry ∈ runs, ∀ s ∈ entry.1, s.source.ByCalls exitingEngine := by
    simp only [runs, List.forall_mem_cons]
    exact ⟨⟨hscript _, hscript _, hscript _, nofun⟩, ⟨hbytes _, nofun⟩, ⟨hscript _, nofun⟩,
      ⟨hscript _, nofun⟩, ⟨byCalls_exitingEngine, nofun⟩, ⟨hbytes _, nofun⟩, nofun⟩
  have hshown : ∀ entry ∈ runs, (run exitingEngine [] {} entry.1).2.text = entry.2 := by
    simp only [runs, List.forall_mem_cons]
    refine ⟨?_, ?_, ?_, ?_, ?_, ?_, nofun⟩ <;> decide +kernel
  intro entry hentry
  obtain ⟨⟨journal, hjournals⟩, htext⟩ := run_transcript exitingEngine [] {} (hcalls entry hentry)
  have hpassages := (htext journal hjournals).1
  rw [String.empty_append, hshown entry hentry] at hpassages
  exact ⟨hcalls entry hentry, journal, hjournals, hpassages.symm⟩

end Pipeline

end StagedSandbox
