import StagedSandbox.Proofs.Wasi.Journal
import StagedSandbox.Wasm.Interpreter

/-!
# What an engine has to do

An engine runs the text of a module if the module that it compiles does what the text means
(`Engine.RunsText`); how it words its errors is left to it. A module has nothing but its imports to
act on its guest, and an engine has to leave it at that (`Engine.ByCalls`). The interpreter does
both (`Engine.runsText_interpreter`, `Engine.byCalls_interpreter`).
-/

namespace StagedSandbox.Wasm

open StagedSandbox.Action
open Wasi (Machine ValueType)

/-! ### Texts -/

/-- How the call of an entry function ends that is to end so. An engine passes the end on that the
module has asked for, and tells a trap in words of its own. -/
inductive Ends : Except Stopped Unit → Except CallError Unit → Prop where
  | returned : Ends (.ok ()) (.ok ())
  | stopped {stop : Stop} {e : CallError} (h : e.stop = some stop) :
    Ends (.error (.stop stop)) (.error e)
  | trapped {trap : Trap} {e : CallError} (h : e.stop = none) :
    Ends (.error (.trap trap)) (.error e)

/-- An instance of a module starts without touching the guest, and then does what is meant. -/
def Module.Does (module : Module) (meaning : Meaning) : Prop :=
  ∀ g, ∃ entry, module.instantiate g = (.ok ⟨.ok entry⟩, g) ∧
    Ends (meaning g).1 (entry g).1 ∧ (entry g).2 = (meaning g).2

/-- An engine makes a module of a text that does what the text means, if it means anything. -/
def Engine.RunsText (engine : Engine) (text : String) : Prop :=
  ∀ meaning, meaningOf? text = some meaning →
    ∃ module, engine.compile (Bytes.ofText text) = .ok module ∧ module.Does meaning

theorem Module.does_ofMeaning (meaning : Meaning) : (Module.ofMeaning meaning).Does meaning := by
  intro g
  refine ⟨_, rfl, ?_, rfl⟩
  dsimp only
  cases (meaning g).1 with
  | ok => exact .returned
  | error stopped =>
    cases stopped with
    | stop stop => exact .stopped rfl
    | trap trap => exact .trapped rfl

theorem Engine.compile_interpreter {data : Bytes} {module : Module} :
    Engine.interpreter.compile data = .ok module ↔
      ∃ meaning, data.text?.bind meaningOf? = some meaning ∧ Module.ofMeaning meaning = module := by
  simp only [Engine.interpreter]
  cases data.text?.bind meaningOf? with
  | none => simp
  | some meaning => simp

/-- The interpreter runs each text by its meaning. -/
theorem Engine.runsText_interpreter (text : String) : Engine.interpreter.RunsText text := by
  intro meaning hmeaning
  refine ⟨.ofMeaning meaning, compile_interpreter.mpr ⟨meaning, ?_, rfl⟩,
    Module.does_ofMeaning meaning⟩
  rw [Bytes.text?_ofText]
  exact hmeaning

/-! ### Calls -/

/-- What a module does to its guest, while it is instantiated or when its entry function is called,
it does by system calls. -/
structure Module.ByCalls (module : Module) : Prop where
  instantiate (g : Guest) : Guest.ByCalls g (module.instantiate g).2
  entry {g g' : Guest} {i : Instance} {entry : Guest → Except CallError Unit × Guest}
    (h : module.instantiate g = (.ok i, g')) (hentry : i.entry = .ok entry) :
    Guest.ByCalls g' (entry g').2

/-- The modules of an engine act on their guests by system calls. -/
def Engine.ByCalls (engine : Engine) : Prop :=
  ∀ data module, engine.compile data = .ok module → module.ByCalls

/-- A routine acts on the guest by system calls. -/
def Routine.ByCalls (r : Routine) : Prop :=
  ∀ arguments, Leads Machine.ByCalls (r.call arguments)

theorem byCalls_performImport (c : Wasi.Call) (results : List ValueType) :
    Leads Machine.ByCalls (performImport c results) := by
  intro m
  have hcall : Machine.ByCalls m (Wasi.perform c m).2 := Wasi.byCalls_perform c m
  rw [left, performImport]
  rcases hrun : Wasi.perform c m with ⟨code | stop, m'⟩ <;> rwa [hrun] at hcall

theorem byCalls_storeWord (address value : UInt32) :
    Leads Machine.ByCalls (storeWord address value) := by
  intro m
  have hstay : Guest.ByCalls m.guest m.guest := Std.Refl.refl m.guest
  rw [left, storeWord]
  by_cases hrange : address.toNat + 4 ≤ m.memory.size
  · rw [if_pos hrange]
    exact hstay
  · rw [if_neg hrange]
    exact hstay

theorem byCalls_importRoutine {name : String} {type : Wasi.FunctionType} {r : Routine}
    (h : importRoutine? name type = some r) : r.ByCalls := by
  rw [importRoutine?] at h
  split at h
  · split at h
    · obtain rfl := Option.some.inj h
      exact fun arguments => byCalls_performImport _ _
    · cases h
  · cases h

theorem byCalls_imports {imports : List (String × Wasi.FunctionType)} {routines : List Routine}
    (h : imports.mapM (fun i => importRoutine? i.1 i.2) = some routines) :
    ∀ r ∈ routines, r.ByCalls := by
  induction imports generalizing routines with
  | nil =>
    obtain rfl := Option.some.inj h
    exact nofun
  | cons i rest ih =>
    rw [List.mapM_cons] at h
    obtain ⟨r, hr, h⟩ := Option.bind_eq_some_iff.mp h
    obtain ⟨later, hlater, h⟩ := Option.bind_eq_some_iff.mp h
    obtain rfl := Option.some.inj h
    rw [List.forall_mem_cons]
    exact ⟨byCalls_importRoutine hr, ih hlater⟩

section Functions

variable {routines : List Routine} (h : ∀ r ∈ routines, r.ByCalls)

include h

theorem byCalls_instruction (parameters stack : List UInt32) (i : Instruction) :
    Leads Machine.ByCalls (i.run routines parameters stack) := by
  cases i with
  | const | parameter | drop => exact Leads.pure _
  | unreachable => exact Leads.throw _
  | store => exact (byCalls_storeWord _ _).bind fun _ => Leads.pure _
  | call function =>
    rw [Instruction.run]
    split
    · rename_i routine hroutine
      exact (h routine (List.mem_of_getElem? hroutine) _).bind fun results => Leads.pure _
    · exact Leads.pure _

theorem byCalls_body (parameters : List UInt32) (body : List Instruction) (stack : List UInt32) :
    Leads Machine.ByCalls (body.foldlM (Instruction.run routines parameters) stack) := by
  induction body generalizing stack with
  | nil => exact Leads.pure stack
  | cons i rest ih =>
    rw [List.foldlM_cons]
    exact (byCalls_instruction h parameters stack i).bind fun stack => ih stack

theorem byCalls_function (f : Function) : Routine.ByCalls ⟨f.type, f.run routines⟩ :=
  fun parameters => (byCalls_body h parameters f.body []).bind fun _ => Leads.pure _

theorem byCalls_addRoutines {functions : List Function} {all : List Routine}
    (hadd : functions.foldlM addRoutine routines = some all) : ∀ r ∈ all, r.ByCalls := by
  induction functions generalizing routines with
  | nil =>
    obtain rfl := Option.some.inj hadd
    exact h
  | cons f rest ih =>
    rw [List.foldlM_cons] at hadd
    obtain ⟨next, hnext, hrest⟩ := Option.bind_eq_some_iff.mp hadd
    rw [addRoutine] at hnext
    split at hnext
    · obtain rfl := Option.some.inj hnext
      refine ih (fun r hr => ?_) hrest
      rcases List.mem_append.mp hr with hr | hr
      · exact h r hr
      · rw [List.mem_singleton.mp hr]
        exact byCalls_function h f
    · cases hnext

end Functions

theorem Definition.byCalls_routines {d : Definition} {routines : List Routine}
    (h : d.routines? = some routines) : ∀ r ∈ routines, r.ByCalls := by
  obtain ⟨imports, himports, hadd⟩ := Option.bind_eq_some_iff.mp h
  exact byCalls_addRoutines (byCalls_imports himports) hadd

theorem Definition.byCalls_meaning {d : Definition} {meaning : Meaning}
    (h : d.meaning? = some meaning) (g : Guest) : Guest.ByCalls g (meaning g).2 := by
  obtain ⟨routines, hroutines, h⟩ := Option.bind_eq_some_iff.mp h
  obtain ⟨pages, -, h⟩ := Option.bind_eq_some_iff.mp h
  obtain ⟨memory, -, h⟩ := Option.bind_eq_some_iff.mp h
  obtain ⟨entry, hentry, h⟩ := Option.bind_eq_some_iff.mp h
  obtain rfl := Option.some.inj h
  have hcalls : entry.ByCalls := by
    obtain ⟨index, -, hentry⟩ := Option.bind_eq_some_iff.mp hentry
    obtain ⟨routine, hroutine, hentry⟩ := Option.bind_eq_some_iff.mp hentry
    split at hentry
    · obtain rfl := Option.some.inj hentry
      exact byCalls_routines hroutines routine (List.mem_of_getElem? hroutine)
    · cases hentry
  have hrun := hcalls [] ⟨memory, g⟩
  rw [left] at hrun
  rw [start]
  split <;> rename_i hcall <;> rwa [hcall] at hrun

/-- The modules of the interpreter act on their guests by system calls. -/
theorem Engine.byCalls_interpreter : Engine.interpreter.ByCalls := by
  intro data module hcompile
  obtain ⟨meaning, hmeaning, rfl⟩ := compile_interpreter.mp hcompile
  obtain ⟨text, -, hmeaning⟩ := Option.bind_eq_some_iff.mp hmeaning
  obtain ⟨d, -, hmeaning⟩ := Option.bind_eq_some_iff.mp hmeaning
  constructor
  case instantiate => exact fun g => Std.Refl.refl g
  case entry =>
    intro g g' i entry h hentry
    obtain ⟨hinstance, rfl⟩ := Prod.mk.inj h
    obtain rfl := Except.ok.inj hinstance
    obtain rfl := Except.ok.inj hentry
    exact Definition.byCalls_meaning hmeaning g

end StagedSandbox.Wasm
