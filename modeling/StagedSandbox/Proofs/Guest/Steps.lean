import Mathlib.Logic.Relation
import StagedSandbox.Proofs.Guest.Failure

/-!
# The steps of a guest

All that a system call does is made of a few steps, each of which changes one thing: the file
system, the offset of an open file, the open descriptors by one, or the source of random bytes.
Only a write to a stream that is open shows something, and it does nothing else
(`Guest.call_cases`).
-/

namespace StagedSandbox

/-- Descriptors of what was opened by its path. -/
inductive Descriptor.IsOpened : Descriptor → Prop where
  | dir (path scope : Path) : IsOpened (.dir path scope)
  | file (path : Path) (offset : UInt64) (append : Bool) : IsOpened (.file path offset append)

namespace Guest

open StagedSandbox.Action

variable {α : Type} {g g' : Guest} {fd : Nat} {d : Descriptor}

/-- What a guest does at once, other than to show something. -/
inductive Step : Guest → Guest → Prop where
  | fs (g : Guest) (fs : Fs) : Step g { g with fs }
  | offset {g : Guest} {fd : Nat} {path : Path} {old : UInt64} {append : Bool}
    (hfile : g.descriptors.get? fd = some (.file path old append)) (new : UInt64) :
    Step g { g with descriptors := g.descriptors.set fd (.file path new append) }
  | opened {g : Guest} {fd : Nat} (hfree : g.Free fd) {d : Descriptor} (hd : d.IsOpened) :
    Step g (g.opened fd d)
  | closed (g : Guest) (fd : Nat) : Step g { g with descriptors := g.descriptors.erase fd }
  | random (g : Guest) (entropy : Entropy) : Step g { g with entropy }

/-- Any number of steps. -/
abbrev Steps : Guest → Guest → Prop := Relation.ReflTransGen Step

instance : Std.Refl Steps := ⟨fun _ => .refl⟩

instance : Trans Steps Steps Steps := ⟨.trans⟩

/-! ### Parts of a call -/

section

variable {R : Guest → Guest → Prop} [Std.Refl R]

theorem Asks.leads {x : Action α} (h : Asks x) : Leads R x := .of_keeps h.keeps

/-- What is done with an open descriptor is done to the guest that it is open in. -/
theorem leads_descriptor [Trans R R R] {f : Descriptor → Action α}
    (h : ∀ g d, g.descriptors.get? fd = some d → R g (left (f d) g)) :
    Leads R (descriptor fd >>= f) := by
  intro g
  refine left_bind ((asks_descriptor fd).leads g) fun d t hrun => ?_
  obtain rfl := (asks_descriptor fd).of_ok hrun
  exact h t d (get?_of_descriptor hrun)

end

/-- What comes after a question starts from the same guest. -/
theorem Asks.steps_bind {β : Type} {x : Action α} {f : α → Action β} (h : Asks x)
    (hf : ∀ a, Steps g (left (f a) g)) : Steps g (left (x >>= f) g) := by
  refine left_bind (h.leads g) fun a t hrun => ?_
  obtain rfl := h.of_ok hrun
  exact hf a

theorem steps_onFs (change : Fs.Change α) : Leads Steps (onFs change) := by
  intro g
  rw [left, onFs]
  cases change g.fs with
  | ok a fs => exact .single (.fs g fs)
  | error e fs => exact .single (.fs g fs)

theorem steps_setOffset {path : Path} {old : UInt64} {append : Bool}
    (h : g.descriptors.get? fd = some (.file path old append)) (new : UInt64) :
    Steps g (left (setDescriptor fd (.file path new append)) g) := .single (.offset h new)

theorem steps_read (fd length : Nat) : Leads Steps (read fd length) := by
  refine leads_descriptor fun g d hfd => ?_
  cases d with
  | stdin => exact .refl
  | file path offset append =>
    refine (asks_askFs _).steps_bind fun data => ?_
    exact left_bind (steps_setOffset hfd _) fun _ t _ => Leads.pure data t
  | preopen | dir | stdout | stderr => exact .refl

theorem steps_writeFrom {path : Path} {old : UInt64} {append : Bool}
    (h : g.descriptors.get? fd = some (.file path old append)) (data : Bytes) (start : UInt64) :
    Steps g (left (writeFrom fd path append data start) g) := by
  refine left_bind (steps_onFs _ g) fun _ t hrun => ?_
  obtain ⟨fs, -, rfl⟩ := onFs_ok hrun
  exact left_bind (steps_setOffset (g := { g with fs }) h _) fun _ t _ => Leads.pure data.size t

theorem steps_writeAtEnd {path : Path} {old : UInt64}
    (h : g.descriptors.get? fd = some (.file path old true)) (data : Bytes) :
    Steps g (left (writeAtEnd fd path data) g) := by
  refine (asks_askFs _).steps_bind fun found => ?_
  refine left_bind (steps_setOffset h _) fun _ t hrun => ?_
  obtain ⟨-, rfl⟩ := EStateM.Result.ok.inj hrun
  exact steps_writeFrom (get?_rebound h _) data _

theorem steps_write_file {path : Path} {offset : UInt64} {append : Bool}
    (h : g.descriptors.get? fd = some (.file path offset append)) (data : Bytes) :
    Steps g (left (write fd data) g) := by
  rw [left, write_file h]
  cases append with
  | false => exact steps_writeFrom h data offset
  | true => exact steps_writeAtEnd h data

theorem steps_writeAt (fd : Nat) (data : Bytes) (start : Nat) :
    Leads Steps (writeAt fd data start) := by
  refine leads_descriptor fun g d _ => ?_
  cases d with
  | file path offset append => exact (steps_onFs _).bind (fun _ => Leads.pure _) g
  | stdin | stdout | stderr | preopen | dir => exact .refl

theorem steps_seekFrom {path : Path} {old : UInt64} {append : Bool}
    (h : g.descriptors.get? fd = some (.file path old append)) (delta base : Int64) :
    Steps g (left (seekFrom fd path append delta base) g) := by
  rw [seekFrom]
  dsimp only
  split
  · exact left_bind (steps_setOffset h _) fun _ t _ => Leads.pure _ t
  · exact .refl

theorem steps_seek (fd : Nat) (delta : Int64) (whence : Whence) :
    Leads Steps (seek fd delta whence) := by
  refine leads_descriptor fun g d hfd => ?_
  cases d with
  | file path offset append =>
    cases whence with
    | fromStart => exact steps_seekFrom hfd delta 0
    | fromCurrent => exact steps_seekFrom hfd delta offset.toInt64
    | fromEnd => exact (asks_askFs _).steps_bind fun found => steps_seekFrom hfd delta _
  | stdin | stdout | stderr | preopen | dir => exact .refl

theorem steps_close (fd : Nat) : Leads Steps (close fd) :=
  (asks_descriptor fd).leads.bind fun _ g => .single (.closed g fd)

theorem steps_truncate (fd size : Nat) : Leads Steps (truncate fd size) := by
  refine leads_descriptor fun g d _ => ?_
  cases d with
  | file path offset append => exact steps_onFs _ g
  | stdin | stdout | stderr | preopen | dir => exact .refl

/-- What is changed at a path beneath an open directory. -/
theorem steps_changeAt (dirFd : Nat) (text : String) (change : Path → Fs.Change α) :
    Leads Steps (do
      let (path, _) ← locate dirFd text
      onFs (change path) : Action α) :=
  (asks_locate dirFd text).leads.bind fun found => steps_onFs (change found.1)

theorem steps_move (fromFd : Nat) (source : String) (toFd : Nat) (goal : String) :
    Leads Steps (move fromFd source toFd goal) := by
  refine (asks_locate fromFd source).leads.bind fun from' => ?_
  refine (asks_locate toFd goal).leads.bind fun to' g => ?_
  rw [left]
  dsimp only
  cases Fs.move from'.1 to'.1 g.fs with
  | ok a fs => exact .single (.fs g fs)
  | error e fs => exact .single (.fs g fs)

/-! ### Opening -/

theorem onFs_allocate_ok {change : Fs.Change Unit}
    (h : (do onFs change; allocate d : Action Nat) g = .ok fd g') :
    ∃ fs, g.Free fd ∧ g' = Guest.opened { g with fs } fd d := by
  obtain ⟨_, t, hchange, hallocate⟩ := exists_of_bind h
  obtain ⟨fs, -, rfl⟩ := onFs_ok hchange
  have hfree := free_of_allocate hallocate
  rw [allocate_eq hfree] at hallocate
  exact ⟨fs, hfree.with_fs g.fs, (EStateM.Result.ok.inj hallocate).2.symm⟩

/-- What is opened gets the number that is free. -/
theorem openPath_ok {dirFd : Nat} {text : String} {flags : OpenFlags}
    (h : openPath dirFd text flags g = .ok fd g') :
    ∃ fs d, g.Free fd ∧ Descriptor.IsOpened d ∧ g' = Guest.opened { g with fs } fd d := by
  obtain ⟨⟨path, scope⟩, t, hlocate, hrest⟩ := exists_of_bind h
  obtain rfl := (asks_locate dirFd text).of_ok hlocate
  have hplain {d : Descriptor} (hd : d.IsOpened) (hrun : allocate d t = .ok fd g') :
      ∃ fs d, t.Free fd ∧ Descriptor.IsOpened d ∧ g' = Guest.opened { t with fs } fd d := by
    have hfree := free_of_allocate hrun
    rw [allocate_eq hfree] at hrun
    exact ⟨t.fs, d, hfree, hd, (EStateM.Result.ok.inj hrun).2.symm⟩
  have hmade {change : Fs.Change Unit} {append : Bool}
      (hrun : (do onFs change; allocate (.file path 0 append) : Action Nat) t = .ok fd g') :
      ∃ fs d, t.Free fd ∧ Descriptor.IsOpened d ∧ g' = Guest.opened { t with fs } fd d := by
    obtain ⟨fs, hfree, hg⟩ := onFs_allocate_ok hrun
    exact ⟨fs, _, hfree, .file path 0 append, hg⟩
  simp only [run_bind, run_get] at hrest
  generalize t.fs.stat path = answer at hrest
  split at hrest
  · split at hrest
    · cases hrest
    · split at hrest
      · split at hrest
        · cases hrest
        · exact hplain (.dir path scope) hrest
      · split at hrest
        · cases hrest
        · split at hrest
          · exact hmade hrest
          · exact hplain (.file path 0 _) hrest
  · split at hrest
    · exact hmade hrest
    · cases hrest
  · cases hrest

theorem steps_openPath (dirFd : Nat) (text : String) (flags : OpenFlags) :
    Leads Steps (openPath dirFd text flags) := by
  intro g
  rw [left]
  cases hrun : openPath dirFd text flags g with
  | ok fd g' =>
    obtain ⟨fs, d, hfree, hd, rfl⟩ := openPath_ok hrun
    exact .tail (.single (.fs g fs)) (.opened (hfree.with_fs fs) hd)
  | error e g' =>
    obtain ⟨rfl, -⟩ | ⟨-, -, _, _, fs, -, -, rfl⟩ := fails_openPath dirFd text flags g e g' hrun
    · exact .refl
    · exact .single (.fs g fs)

/-! ### The numbers of descriptors -/

theorem Free.three_le (h : g.Free fd) : 3 ≤ fd := by
  obtain ⟨-, hmem, -⟩ := List.find?_range'_eq_some.1 h.lowest
  exact (List.mem_range'_1.mp hmem).1

/-- The numbers below the one that is free are taken. -/
theorem Free.taken (h : g.Free fd) {other : Nat} (hother : 3 ≤ other) (hlt : other < fd) :
    (g.descriptors.get? other).isSome := by
  obtain ⟨-, -, hbelow⟩ := List.find?_range'_eq_some.1 h.lowest
  simpa [Table.contains] using hbelow other hother hlt

/-- A descriptor that is found after a step was there before, but for its offset, or it has been
opened. -/
theorem Step.get? (h : Step g g') (hget : g'.descriptors.get? fd = some d) :
    g.descriptors.get? fd = some d ∨
      d.IsOpened ∧
        (3 ≤ fd ∨ ∃ old, Descriptor.IsOpened old ∧ g.descriptors.get? fd = some old) := by
  cases h with
  | fs | random => exact Or.inl hget
  | @offset other path old append hfile new =>
    by_cases hfd : fd = other
    · subst hfd
      rw [Table.get?_set_self _ _ (by rw [hfile]; rfl)] at hget
      obtain rfl := Option.some.inj hget
      exact Or.inr ⟨.file path new append, Or.inr ⟨_, .file path old append, hfile⟩⟩
    · rw [Table.get?_set_of_ne _ _ hfd] at hget
      exact Or.inl hget
  | @opened other hfree d' hd =>
    by_cases hfd : fd = other
    · subst hfd
      rw [get?_opened] at hget
      obtain rfl := Option.some.inj hget
      exact Or.inr ⟨hd, Or.inl hfree.three_le⟩
    · rw [Guest.opened, Table.get?_insert_of_ne _ _ hfd] at hget
      exact Or.inl hget
  | closed other =>
    by_cases hfd : fd = other
    · rw [hfd, Table.get?_erase_self] at hget
      cases hget
    · rw [Table.get?_erase_of_ne _ hfd] at hget
      exact Or.inl hget

/-- A descriptor that is found at one number and no other, if at all. -/
def Fixed (s : Descriptor) (n : Nat) (g : Guest) : Prop :=
  ∀ fd d, g.descriptors.get? fd = some d → (d = s ↔ fd = n)

/-- What is never opened stays at its number, and nothing else comes there. -/
theorem Steps.fixed {s : Descriptor} {n : Nat} (hs : ¬ s.IsOpened) (hn : n < 3)
    (h : Steps g g') (hfixed : g.Fixed s n) : g'.Fixed s n := by
  induction h with
  | refl => exact hfixed
  | tail _ hstep ih =>
    intro fd d hget
    obtain hsame | ⟨hd, hwhere⟩ := hstep.get? hget
    · exact ih fd d hsame
    · refine iff_of_false (fun heq => hs (heq ▸ hd)) fun heq => ?_
      rcases hwhere with hfd | ⟨old, hold, hbefore⟩
      · omega
      · exact hs ((ih fd old hbefore).mpr heq ▸ hold)

/-- No step shows anything. -/
theorem Steps.quiet (h : Steps g g') :
    g'.heldOut = g.heldOut ∧ g'.heldErr = g.heldErr ∧ g'.console = g.console := by
  induction h with
  | refl => exact ⟨rfl, rfl, rfl⟩
  | tail _ hstep ih => cases hstep <;> exact ih

/-! ### All calls -/

theorem call_snd (c : SystemCall) : (g.call c).2 = left (perform c) g := by
  rw [call, left]
  cases perform c g <;> rfl

theorem call_snd_of_reply {c : SystemCall} (x : Action α) (reply : α → Reply)
    (h : perform c = do return reply (← x)) : (g.call c).2 = left x g := by
  rw [call_snd, h, left_map]

/-- A write to a stream that is open. -/
inductive Shows (g : Guest) : SystemCall → Guest → Prop where
  | out {fd : Nat} (hfd : g.descriptors.get? fd = some .stdout) (data : Bytes) :
    Shows g (.write fd data) (left (writeOut data) g)
  | err {fd : Nat} (hfd : g.descriptors.get? fd = some .stderr) (data : Bytes) :
    Shows g (.write fd data) (left (writeErr data) g)

theorem write_cases (g : Guest) (fd : Nat) (data : Bytes) :
    Steps g (g.call (.write fd data)).2 ∨
      Shows g (.write fd data) (g.call (.write fd data)).2 := by
  rw [call_snd_of_reply (write fd data) .count rfl]
  cases hfd : g.descriptors.get? fd with
  | none =>
    rw [left, write, run_bind, descriptor, hfd]
    exact Or.inl .refl
  | some d =>
    cases d with
    | file path offset append => exact Or.inl (steps_write_file hfd data)
    | stdout =>
      rw [left, write, run_bind_of_ok (descriptor_eq hfd)]
      exact Or.inr (.out hfd data)
    | stderr =>
      rw [left, write, run_bind_of_ok (descriptor_eq hfd)]
      exact Or.inr (.err hfd data)
    | stdin | preopen | dir =>
      rw [left, write, run_bind_of_ok (descriptor_eq hfd)]
      exact Or.inl .refl

/-- A call takes some steps, or it is a write to a stream. -/
theorem call_cases (g : Guest) (c : SystemCall) :
    Steps g (g.call c).2 ∨ Shows g c (g.call c).2 := by
  have hreply {α : Type} {c : SystemCall} {x : Action α} (hx : Leads Steps x)
      (reply : α → Reply) (hc : perform c = do return reply (← x)) :
      Steps g (g.call c).2 ∨ Shows g c (g.call c).2 := by
    rw [call_snd_of_reply x reply hc]
    exact Or.inl (hx g)
  cases c with
  | arguments | environment | preopens | clock | isTerminal | stop => exact Or.inl .refl
  | resolve path =>
    exact hreply (asks_target path).leads (fun found => .target found.1 found.2) rfl
  | openPath dirFd path flags => exact hreply (steps_openPath dirFd path flags) .descriptor rfl
  | read fd length => exact hreply (steps_read fd length) .data rfl
  | write fd data => exact write_cases g fd data
  | readAt fd length start => exact hreply (asks_readAt fd length start).leads .data rfl
  | writeAt fd data start => exact hreply (steps_writeAt fd data start) .count rfl
  | seek fd delta whence => exact hreply (steps_seek fd delta whence) .position rfl
  | close fd => exact hreply (steps_close fd) (fun _ => .done) rfl
  | truncate fd size => exact hreply (steps_truncate fd size) (fun _ => .done) rfl
  | makeDir dirFd path => exact hreply (steps_changeAt dirFd path Fs.makeDir) (fun _ => .done) rfl
  | removeFile dirFd path =>
    exact hreply (steps_changeAt dirFd path Fs.removeFile) (fun _ => .done) rfl
  | removeDir dirFd path =>
    exact hreply (steps_changeAt dirFd path Fs.removeDir) (fun _ => .done) rfl
  | move fromFd source toFd goal =>
    exact hreply (steps_move fromFd source toFd goal) (fun _ => .done) rfl
  | fdStatus fd => exact hreply (asks_fdStatus fd).leads .status rfl
  | pathStatus dirFd path => exact hreply (asks_pathStatus dirFd path).leads .status rfl
  | readDir fd => exact hreply (asks_readDir fd).leads .entries rfl
  | random length =>
    have hrandom : Leads Steps (random length) := fun g => .single (.random g _)
    exact hreply hrandom (fun data => .count data.size) rfl

end Guest

end StagedSandbox
