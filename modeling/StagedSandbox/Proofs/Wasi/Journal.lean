import StagedSandbox.Proofs.Guest.Journal
import StagedSandbox.Proofs.Wasi.Fault

/-!
# Journals of imports

An import acts on the guest of a module by system calls alone, one for each buffer that is filled
and at most one otherwise (`Wasi.byCalls_perform`).
-/

namespace StagedSandbox

open StagedSandbox.Action

namespace Wasi

variable {α : Type}

/-- The guest of a machine is changed by system calls alone. -/
def Machine.ByCalls (m m' : Machine) : Prop := Guest.ByCalls m.guest m'.guest

instance : Std.Refl Machine.ByCalls := ⟨fun m => Std.Refl.refl m.guest⟩

instance : Trans Machine.ByCalls Machine.ByCalls Machine.ByCalls where
  trans {m _ m''} h h' := Trans.trans (r := Guest.ByCalls) (a := m.guest) (c := m''.guest) h h'

theorem byCalls_of_keeps {x : Step α} (h : Keeps Machine.guest x) :
    Leads Machine.ByCalls x := by
  intro m
  rw [Machine.ByCalls, h m]
  exact Std.Refl.refl m.guest

theorem byCalls_onGuest {action : Guest.Action α} (h : Leads Guest.ByCalls action) :
    Leads Machine.ByCalls (onGuest action) := by
  intro m
  have haction := h m.guest
  rw [left] at haction
  rw [left, onGuest]
  cases hrun : action m.guest with
  | ok a g => rwa [hrun] at haction
  | error e g => rwa [hrun] at haction

theorem byCalls_scatter {reader : Nat → Nat → Guest.Action Bytes}
    (h : ∀ total length, Leads Guest.ByCalls (reader total length)) (total : Nat)
    (list : List (Nat × Nat)) : Leads Machine.ByCalls (scatter reader total list) := by
  induction list generalizing total with
  | nil => exact Leads.pure total
  | cons buffer rest ih =>
    obtain ⟨start, length⟩ := buffer
    refine (Leads.of_keeps (keeps_checkRange start length)).bind fun _ => ?_
    refine (byCalls_onGuest (h total length)).bind fun data => ?_
    refine (byCalls_of_keeps (keeps_store start data)).bind fun _ => ?_
    split
    · exact Leads.pure _
    · exact ih _

theorem byCalls_memoryStep (c : Call) : Leads Machine.ByCalls (memoryStep c) := by
  have hcall {α : Type} {x : Guest.Action α} (c : SystemCall) {reply : α → Reply}
      (h : Guest.perform c = x >>= fun a => pure (reply a)) :
      Leads Machine.ByCalls (onGuest x) := byCalls_onGuest (Guest.byCalls_of_perform c h)
  have hstore (start : Nat) (data : Bytes) : Leads Machine.ByCalls (store start data) :=
    byCalls_of_keeps (keeps_store start data)
  have hcount (start n : Nat) : Leads Machine.ByCalls (do storeWord start (← word n)) :=
    (Leads.of_keeps (keeps_word n)).bind fun n => hstore start _
  cases c with
  | argsGet table buffer | environGet table buffer =>
    exact byCalls_of_keeps
      (keeps_after (keeps_askGuest _) fun texts => keeps_storeTexts _ 0 _ texts)
  | argsSizesGet countAt sizeAt | environSizesGet countAt sizeAt =>
    exact byCalls_of_keeps
      (keeps_after (keeps_askGuest _) fun texts => keeps_storeTextSizes _ _ texts)
  | clockResGet resultAt | clockTimeGet resultAt => exact hstore _ _
  | randomGet buffer length =>
    refine (Leads.of_keeps (keeps_checkRange _ _)).bind fun _ => ?_
    exact (hcall (.random length.toNat) rfl).bind fun data => hstore _ data
  | fdWrite fd array count resultAt =>
    refine (Leads.of_keeps (keeps_buffers _ _ _)).bind fun list => ?_
    refine (Leads.of_keeps (keeps_gather _ list)).bind fun data => ?_
    exact (hcall (.write fd.toNat data) rfl).bind fun n => hcount _ n
  | fdPwrite fd array count start resultAt =>
    refine (Leads.of_keeps (keeps_filePosition start)).bind fun position => ?_
    refine (Leads.of_keeps (keeps_buffers _ _ _)).bind fun list => ?_
    refine (Leads.of_keeps (keeps_gather _ list)).bind fun data => ?_
    exact (hcall (.writeAt fd.toNat data position) rfl).bind fun n => hcount _ n
  | fdRead fd array count resultAt =>
    refine (Leads.of_keeps (keeps_buffers _ _ _)).bind fun list => ?_
    have hreader (_ length : Nat) := Guest.byCalls_of_perform (.read fd.toNat length) rfl
    exact (byCalls_scatter hreader 0 list).bind fun n => hcount _ n
  | fdPread fd array count start resultAt =>
    refine (Leads.of_keeps (keeps_filePosition start)).bind fun position => ?_
    refine (Leads.of_keeps (keeps_buffers _ _ _)).bind fun list => ?_
    have hreader (total length : Nat) :=
      Guest.byCalls_of_perform (.readAt fd.toNat length (position + total)) rfl
    exact (byCalls_scatter hreader 0 list).bind fun n => hcount _ n
  | fdSeek fd delta origin resultAt =>
    refine (Leads.of_keeps (keeps_whence origin)).bind fun origin => ?_
    exact (hcall (.seek fd.toNat delta origin) rfl).bind fun position => hstore _ _
  | fdTell fd resultAt =>
    exact (hcall (.seek fd.toNat 0 .fromCurrent) rfl).bind fun position => hstore _ _
  | fdClose fd => exact hcall (.close fd.toNat) rfl
  | fdSync fd => exact (hcall (.fdStatus fd.toNat) rfl).bind fun _ => Leads.pure ()
  | fdFdstatGet fd resultAt | fdFilestatGet fd resultAt =>
    exact (hcall (.fdStatus fd.toNat) rfl).bind fun status => hstore _ _
  | fdFilestatSetSize fd size =>
    refine (Leads.of_keeps (keeps_filePosition size)).bind fun size => ?_
    exact hcall (.truncate fd.toNat size) rfl
  | fdPrestatGet fd resultAt =>
    refine (Leads.of_keeps (keeps_preopenPath _)).bind fun path => ?_
    refine (hstore _ _).bind fun _ => ?_
    exact (Leads.of_keeps (keeps_word _)).bind fun length => hstore _ _
  | fdPrestatDirName fd buffer length =>
    exact (Leads.of_keeps (keeps_preopenPath _)).bind fun path => hstore _ _
  | fdReaddir fd buffer length cookie usedAt =>
    refine (Leads.of_keeps (keeps_filePosition cookie)).bind fun index => ?_
    refine (hcall (.readDir fd.toNat) rfl).bind fun entries => ?_
    refine (Leads.of_keeps (keeps_listing _ _ _)).bind fun records => ?_
    exact (hstore _ _).bind fun _ => hstore _ _
  | pathOpen dirFd path length flags rights fdFlags resultAt =>
    refine (Leads.of_keeps (keeps_loadText _ _)).bind fun text => ?_
    exact (hcall (.openPath dirFd.toNat text (openFlags flags rights fdFlags)) rfl).bind
      fun fd => hstore _ _
  | pathFilestatGet dirFd path length resultAt =>
    refine (Leads.of_keeps (keeps_loadText _ _)).bind fun text => ?_
    exact (hcall (.pathStatus dirFd.toNat text) rfl).bind fun status => hstore _ _
  | pathCreateDirectory dirFd path length =>
    refine (Leads.of_keeps (keeps_loadText _ _)).bind fun text => ?_
    exact hcall (.makeDir dirFd.toNat text) rfl
  | pathUnlinkFile dirFd path length =>
    refine (Leads.of_keeps (keeps_loadText _ _)).bind fun text => ?_
    exact hcall (.removeFile dirFd.toNat text) rfl
  | pathRemoveDirectory dirFd path length =>
    refine (Leads.of_keeps (keeps_loadText _ _)).bind fun text => ?_
    exact hcall (.removeDir dirFd.toNat text) rfl
  | pathRename fromFd source sourceLength toFd goal goalLength =>
    refine (Leads.of_keeps (keeps_loadText _ _)).bind fun source => ?_
    refine (Leads.of_keeps (keeps_loadText _ _)).bind fun goal => ?_
    exact hcall (.move fromFd.toNat source toFd.toNat goal) rfl
  | procExit | procRaise | schedYield | pollOneoff => exact Leads.pure ()

/-- An import acts on the guest by system calls alone. -/
theorem byCalls_perform (c : Call) (m : Machine) :
    Guest.ByCalls m.guest (perform c m).2.guest := by
  have hstep := byCalls_memoryStep c m
  rw [Machine.ByCalls, left] at hstep
  cases c with
  | procExit | procRaise | schedYield | pollOneoff => exact Std.Refl.refl m.guest
  | _ =>
    rw [perform.eq_def]
    dsimp only
    split <;> rename_i hrun <;> rwa [hrun] at hstep

end Wasi

end StagedSandbox
