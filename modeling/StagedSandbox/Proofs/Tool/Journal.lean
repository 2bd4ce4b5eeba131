import StagedSandbox.Proofs.Guest.Journal
import StagedSandbox.Stage.Script
import StagedSandbox.Tool.Compiler
import StagedSandbox.Tool.Linker

/-!
# Journals of tools

The compiler, the linker and every script act on their guest by system calls alone.
-/

namespace StagedSandbox

open StagedSandbox.Action Guest

variable {α : Type}

theorem Native.byCalls_attempt {action : Guest.Action α} (h : Leads ByCalls action) :
    Leads ByCalls (attempt action) := by
  intro g
  have haction := h g
  rw [left] at haction
  rw [left, attempt]
  cases hrun : action g with
  | ok a g' => rwa [hrun] at haction
  | error e g' => rwa [hrun] at haction

/-! ### Scripts -/

theorem Native.byCalls_noted (call : SystemCall) : Leads ByCalls (noted call) :=
  fun g => Trans.trans (byCalls_call g call) (byCalls_note _ _)

theorem Native.byCalls_ofScript (strict : Bool) (steps : List ScriptStep) :
    Leads ByCalls (ofScript strict steps) := by
  induction steps with
  | nil => exact Leads.pure ()
  | cons step rest ih =>
    cases step with
    | stop stop => exact Leads.throw _
    | fault message => exact Leads.throw _
    | call call =>
      refine (byCalls_noted call).bind fun reply => ?_
      cases reply with
      | ok reply => exact ih
      | error e =>
        cases strict with
        | true => exact Leads.throw _
        | false => exact ih

namespace Tool

/-! ### What tools share -/

theorem byCalls_target (path : String) : Leads ByCalls (Guest.target path) :=
  byCalls_of_perform (.resolve path) (show Guest.perform (.resolve path) =
    Guest.target path >>= fun found => pure (.target found.1 found.2) from rfl)

theorem byCalls_readChunks (fd : Nat) (soFar : Bytes) : Leads ByCalls (readChunks fd soFar) := by
  intro g
  rw [left]
  have hcall (g : Guest) : ByCalls g (left (Guest.read fd chunkSize) g) :=
    byCalls_of_perform (.read fd chunkSize) rfl g
  fun_induction readChunks fd soFar g with
  | case1 soFar g e g' hread | case2 soFar g data g' hread | case4 soFar g data g' hread =>
    have hchunk := hcall g
    rwa [left, hread] at hchunk
  | case3 soFar g data g' hread hdata hleft ih =>
    have hchunk := hcall g
    rw [left, hread] at hchunk
    exact Trans.trans hchunk ih

theorem byCalls_writeChunks (fd : Nat) (data : Bytes) (written : Nat) :
    Leads ByCalls (writeChunks fd data written) := by
  intro g
  rw [left]
  have hcall (g : Guest) (data : Bytes) : ByCalls g (left (Guest.write fd data) g) :=
    byCalls_of_perform (.write fd data) rfl g
  fun_induction writeChunks fd data written g with
  | case1 written g hmore e g' hwrite =>
    have hchunk := hcall g (data.extract written data.size)
    rwa [left, hwrite] at hchunk
  | case2 written g hmore n g' hwrite ih =>
    have hchunk := hcall g (data.extract written data.size)
    rw [left, hwrite] at hchunk
    exact Trans.trans hchunk ih
  | case3 written g hdone => exact Std.Refl.refl g

theorem byCalls_closing (fd : Nat) {action : Guest.Action α} (h : Leads ByCalls action) :
    Leads ByCalls (closing fd action) := by
  intro g
  have haction := h g
  rw [left] at haction
  have hclose (g : Guest) := byCalls_of_perform (x := Guest.close fd) (.close fd) rfl g
  rw [left, closing]
  cases hrun : action g with
  | ok a g' | error e g' =>
    rw [hrun] at haction
    have hafter := hclose g'
    rw [left] at hafter
    dsimp only
    cases hend : Guest.close fd g' with
    | ok _ g'' | error _ g'' =>
      rw [hend] at hafter
      exact Trans.trans haction hafter

theorem byCalls_readFile (path : String) : Leads ByCalls (readFile path) := by
  refine (byCalls_target path).bind fun found => ?_
  refine (byCalls_of_perform (.openPath found.1 found.2 {}) rfl).bind fun fd => ?_
  apply byCalls_closing
  exact byCalls_readChunks fd _

theorem byCalls_writeFile (path : String) (data : Bytes) : Leads ByCalls (writeFile path data) := by
  refine (byCalls_target path).bind fun found => ?_
  refine (byCalls_of_perform (.openPath found.1 found.2 _) rfl).bind fun fd => ?_
  exact (byCalls_writeChunks fd data 0).bind fun _ => byCalls_of_perform (.close fd) rfl

theorem byCalls_fileExists (path : String) : Leads ByCalls (fileExists path) := by
  refine Leads.bind (Native.byCalls_attempt ?_) fun found => Leads.pure _
  refine (byCalls_target path).bind fun found => ?_
  exact byCalls_of_perform (.pathStatus found.1 found.2) rfl

theorem byCalls_writeStream (fd : Nat) (text : String) : Leads ByCalls (writeStream fd text) := by
  refine (Native.byCalls_attempt (byCalls_of_perform (.write fd _) rfl)).bind fun reply => ?_
  cases reply with
  | ok n => exact Leads.pure ()
  | error e => exact Leads.throw _

theorem byCalls_fail (message : String) : Leads ByCalls (fail message : Native α) :=
  (byCalls_writeStream 2 _).bind fun _ => Leads.throw _

theorem byCalls_environmentValue (name : String) : Leads ByCalls (environmentValue name) :=
  Leads.get.bind fun _ => Leads.pure _

theorem byCalls_arguments : Leads ByCalls arguments := Leads.get.bind fun _ => Leads.pure _

/-! ### The compiler -/

namespace Compiler

theorem byCalls_complain (c : Complaint) : Leads ByCalls (complain c : Native α) := byCalls_fail _

theorem byCalls_orComplain (result : Except Complaint α) : Leads ByCalls (orComplain result) := by
  cases result with
  | ok a => exact Leads.pure a
  | error c => exact byCalls_complain c

theorem byCalls_readText (path : String) : Leads ByCalls (readText path) := by
  refine (Native.byCalls_attempt (byCalls_readFile path)).bind fun found => ?_
  cases found with
  | error e => exact byCalls_complain _
  | ok data =>
    dsimp only
    split
    · exact byCalls_complain _
    · exact Leads.pure _

theorem byCalls_findPrelude (name : String) (directories : List String) :
    Leads ByCalls (findPrelude name directories) := by
  induction directories with
  | nil => exact Leads.pure false
  | cons directory rest ih =>
    refine (byCalls_fileExists _).bind fun found => ?_
    split
    · exact Leads.pure true
    · exact ih

theorem byCalls_checkPrelude (name : String) : Leads ByCalls (checkPrelude name) := by
  rw [checkPrelude]
  split
  · exact Leads.pure ()
  · refine (byCalls_environmentValue _).bind fun directories => ?_
    refine (byCalls_findPrelude name _).bind fun found => ?_
    split
    · exact Leads.pure ()
    · exact byCalls_complain _

theorem byCalls_writeText (path text : String) : Leads ByCalls (writeText path text) := by
  refine (Native.byCalls_attempt (byCalls_writeFile path _)).bind fun reply => ?_
  cases reply with
  | ok n => exact Leads.pure ()
  | error e => exact byCalls_complain _

theorem byCalls_build (arguments : List String) : Leads ByCalls (build arguments) := by
  refine (byCalls_orComplain _).bind fun b => ?_
  have hcompile (source : String) : Leads ByCalls (do
      checkPrelude (b.prelude.getD "prelude")
      let text ← readText source
      let lines ← orComplain ((Source.read text).mapError (.mistake source))
      writeText (b.objectPath source) (compile source lines b.release).render) := by
    refine (byCalls_checkPrelude _).bind fun _ => (byCalls_readText source).bind fun text => ?_
    exact (byCalls_orComplain _).bind fun lines => byCalls_writeText _ _
  split
  · exact byCalls_complain _
  · next source _ =>
    have hlinking := byCalls_complain (α := Unit) .linking
    split
    · exact hlinking.guard ((byCalls_complain (α := Unit) _).guard (hcompile source))
    · exact hlinking.guard (hcompile source)

theorem byCalls_format (arguments : List String) : Leads ByCalls (format arguments) := by
  rw [format.eq_def]
  split
  · next path =>
    refine (byCalls_readText path).bind fun text => (byCalls_orComplain _).bind fun lines => ?_
    dsimp only
    split
    · exact byCalls_writeText _ _
    · exact Leads.pure ()
  · exact byCalls_complain _

theorem byCalls_program : Leads ByCalls program := by
  refine byCalls_arguments.bind fun arguments => ?_
  split
  · exact byCalls_writeStream 1 _
  · exact byCalls_writeStream 1 _
  · exact byCalls_writeStream 1 _
  · exact byCalls_build _
  · exact byCalls_format _
  · exact byCalls_complain _
  · exact byCalls_complain _

end Compiler

/-! ### The linker -/

namespace Linker

theorem byCalls_complain (c : Complaint) : Leads ByCalls (complain c : Native α) := byCalls_fail _

theorem byCalls_readInputs (paths : List String) : Leads ByCalls (readInputs paths) := by
  induction paths with
  | nil => exact Leads.pure []
  | cons path rest ih =>
    refine (Native.byCalls_attempt (byCalls_readFile path)).bind fun found => ?_
    cases found with
    | error e => exact byCalls_complain _
    | ok data =>
      dsimp only
      split
      · exact ih
      · exact byCalls_complain _
      · exact ih.bind fun objects => Leads.pure _

theorem byCalls_link (l : Link) : Leads ByCalls (link l) := by
  refine (byCalls_complain (α := Unit) .noInputs).guard ?_
  split
  · exact byCalls_complain _
  · next output _ =>
    refine (byCalls_readInputs l.inputs).bind fun objects => ?_
    refine (byCalls_complain (α := Unit) .noEntry).guard ?_
    refine (Native.byCalls_attempt (byCalls_writeFile output _)).bind fun reply => ?_
    cases reply with
    | ok n => exact Leads.pure ()
    | error e => exact byCalls_complain _

theorem byCalls_program : Leads ByCalls program := by
  refine byCalls_arguments.bind fun arguments => ?_
  split
  · exact byCalls_link _
  · exact byCalls_complain _

end Linker

end Tool

end StagedSandbox
