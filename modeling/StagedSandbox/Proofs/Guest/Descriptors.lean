import Mathlib.Order.Bounds.Basic
import StagedSandbox.Proofs.Guest.Sandbox
import StagedSandbox.Proofs.Guest.Streams

/-!
# Open descriptors

Whatever calls a program has made, the three streams are at their numbers or closed, all other
descriptors stand for paths within the directories that were shown to it, and the next one is
opened at the lowest free number from 3 on (`Guest.descriptors_run`). A number that was closed may
come back as another file, but never as a stream, so that what is written to the streams never
reaches the file system, and what is written elsewhere never reaches the console.
-/

namespace StagedSandbox

/-- The path that a descriptor stands for. -/
def Descriptor.path? : Descriptor → Option Path
  | .preopen _ path | .dir path _ | .file path _ _ => some path
  | .stdin | .stdout | .stderr => none

theorem Descriptor.Within.path {roots : List Path} {d : Descriptor} (h : d.Within roots)
    {path : Path} (hpath : d.path? = some path) : path.Beneath roots ∧ path.Named := by
  cases d with
  | preopen guest path => exact Option.some.inj hpath ▸ h
  | dir path scope =>
    obtain ⟨⟨root, hroot, hscope⟩, hunder, hnamed⟩ := h
    exact Option.some.inj hpath ▸ ⟨⟨root, hroot, hscope.trans hunder⟩, hnamed⟩
  | file path offset append => exact Option.some.inj hpath ▸ h
  | stdin | stdout | stderr => cases hpath

namespace Guest

open StagedSandbox.Action

variable {g g' : Guest}

/-! ### Streams at their numbers -/

theorem Fixed.call {s : Descriptor} {n : Nat} (h : g.Fixed s n) (hs : ¬ s.IsOpened) (hn : n < 3)
    (c : SystemCall) : (g.call c).2.Fixed s n := by
  obtain hsteps | hshows := call_cases g c
  · exact hsteps.fixed hs hn h
  · generalize (g.call c).2 = g' at hshows
    cases hshows with
    | out hfd data => exact h
    | err hfd data => exact h

theorem Fixed.run {s : Descriptor} {n : Nat} (h : g.Fixed s n) (hs : ¬ s.IsOpened) (hn : n < 3)
    (calls : List SystemCall) : (g.run calls).2.Fixed s n := by
  induction calls generalizing g with
  | nil => exact h
  | cons c rest ih => exact ih (h.call hs hn c)

/-! ### Writing -/

/-- A write through a descriptor, at its offset or at a position. -/
inductive WritesTo (fd : Nat) : SystemCall → Prop where
  | write (data : Bytes) : WritesTo fd (.write fd data)
  | writeAt (data : Bytes) (start : Nat) : WritesTo fd (.writeAt fd data start)

/-- Nothing but a file takes bytes into the file system. -/
theorem fs_call_of_writesTo {fd : Nat} {c : SystemCall} (hc : WritesTo fd c)
    (hfd : ∀ path offset append, g.descriptors.get? fd ≠ some (.file path offset append)) :
    (g.call c).2.fs = g.fs := by
  cases hc with
  | write data =>
    rw [call_snd_of_reply (write fd data) .count rfl, left, write, run_bind, descriptor]
    cases hget : g.descriptors.get? fd with
    | none => rfl
    | some d =>
      cases d with
      | file path offset append => exact absurd hget (hfd path offset append)
      | stdin | stdout | stderr | preopen | dir => rfl
  | writeAt data start =>
    rw [call_snd_of_reply (writeAt fd data start) .count rfl, left, writeAt, run_bind,
      descriptor]
    cases hget : g.descriptors.get? fd with
    | none => rfl
    | some d =>
      cases d with
      | file path offset append => exact absurd hget (hfd path offset append)
      | stdin | stdout | stderr | preopen | dir => rfl

/-- Nothing but a stream takes bytes to the console. -/
theorem quiet_call_of_writesTo (hstreams : g.Streams) {fd : Nat} {c : SystemCall}
    (hc : WritesTo fd c) (hfd : ¬ (fd = 1 ∨ fd = 2)) : Steps g (g.call c).2 := by
  refine (call_cases g c).resolve_right fun hshows => hfd ?_
  generalize (g.call c).2 = g' at hshows
  cases hshows with
  | @out _ hget data =>
    cases hc
    exact Or.inl ((hstreams fd _ hget).1.mp rfl)
  | @err _ hget data =>
    cases hc
    exact Or.inr ((hstreams fd _ hget).2.mp rfl)

/-! ### Opening -/

/-- What is opened takes the lowest free number, and all other descriptors stay. -/
theorem call_openPath_ok {dirFd fd : Nat} {text : String} {flags : OpenFlags}
    (h : g.call (.openPath dirFd text flags) = (.ok (.descriptor fd), g')) :
    IsLeast {n | 3 ≤ n ∧ g.descriptors.get? n = none} fd ∧
      ∀ other, other ≠ fd → g'.descriptors.get? other = g.descriptors.get? other := by
  obtain ⟨opened, hopen, hreply⟩ := ok_of_call rfl h
  obtain rfl := Reply.descriptor.inj hreply
  obtain ⟨fs, d, hfree, -, rfl⟩ := openPath_ok hopen
  refine ⟨⟨⟨hfree.three_le, hfree.get?⟩, fun n hn => ?_⟩, fun other hother => ?_⟩
  · by_contra hlt
    have htaken := hfree.taken hn.1 (Nat.not_le.mp hlt)
    rw [hn.2] at htaken
    cases htaken
  · rw [Guest.opened, Table.get?_insert_of_ne _ _ hother]

/-! ### Every state of a program -/

/-- In every state that a program comes to by its calls, the streams are where they were opened or
closed, and what else is open lies within the directories that are shown to it. -/
theorem descriptors_run (fs : Fs) (console : Console) (arguments : List String)
    (environment : List (String × String)) (preopens : List Preopen)
    (entropy : Entropy) (calls : List SystemCall) :
    let g := ((start fs console arguments environment preopens entropy).run calls).2
    (∀ fd d, g.descriptors.get? fd = some d →
      (d = .stdin ↔ fd = 0) ∧ (d = .stdout ↔ fd = 1) ∧ (d = .stderr ↔ fd = 2) ∧
      (∀ path, d.path? = some path → path.Beneath (Preopen.roots preopens) ∧ path.Named ∧
        Path.normalize? path.render = some path.render) ∧
      ∀ path scope, d = .dir path scope →
        scope.Beneath (Preopen.roots preopens) ∧ scope <+: path) ∧
    (∀ dirFd text flags fd g', g.call (.openPath dirFd text flags) = (.ok (.descriptor fd), g') →
      IsLeast {n | 3 ≤ n ∧ g.descriptors.get? n = none} fd ∧
      ∀ other, other ≠ fd → g'.descriptors.get? other = g.descriptors.get? other) ∧
    (∀ fd c, WritesTo fd c → (fd = 1 ∨ fd = 2) → (g.call c).2.fs = g.fs) ∧
    ∀ fd c, WritesTo fd c → ¬ (fd = 1 ∨ fd = 2) →
      (g.call c).2.console = g.console ∧ (g.call c).2.held = g.held := by
  intro g
  have hstart {s : Descriptor} {n : Nat} (hs : ¬ s.IsOpened)
      (hn : [Descriptor.stdin, .stdout, .stderr][n]? = some s) : g.Fixed s n :=
    (fixed_start fs console arguments environment preopens entropy hn).run hs
      (List.getElem?_eq_some_iff.1 hn).1 calls
  have hin : g.Fixed .stdin 0 := hstart nofun rfl
  have hstreams : g.Streams := streams_iff.mpr ⟨hstart nofun rfl, hstart nofun rfl⟩
  -- two runs of the same program are a run that stays within the roots
  have hbonded := (bonded_start (F := Fs.SameOutside (Preopen.roots preopens) fs)
    ⟨rfl, fun _ _ => rfl⟩ console arguments environment preopens entropy).run
      (Fs.bond_sameOutside (Preopen.roots preopens) fs) calls
  have hwithin (fd : Nat) (d : Descriptor) (hget : g.descriptors.get? fd = some d) :
      d.Within (Preopen.roots preopens) := hbonded.2.within fd d hget
  refine ⟨fun fd d hget => ?_, fun dirFd text flags fd g' => call_openPath_ok, ?_, ?_⟩
  · refine ⟨hin fd d hget, (hstreams fd d hget).1, (hstreams fd d hget).2, ?_, ?_⟩
    · intro path hpath
      obtain ⟨hbeneath, hnamed⟩ := (hwithin fd d hget).path hpath
      exact ⟨hbeneath, hnamed, Path.normalize?_render hnamed⟩
    · rintro path scope rfl
      obtain ⟨hscope, hunder, -⟩ := hwithin fd _ hget
      exact ⟨hscope, hunder⟩
  · intro fd c hc hfd
    refine fs_call_of_writesTo hc fun path offset append hget => ?_
    obtain ⟨hout, herr⟩ := hstreams fd _ hget
    rcases hfd with rfl | rfl
    · exact absurd (hout.mpr rfl) nofun
    · exact absurd (herr.mpr rfl) nofun
  · intro fd c hc hfd
    have hsteps := quiet_call_of_writesTo hstreams hc hfd
    exact ⟨hsteps.quiet.2.2, hsteps.held⟩

end Guest

end StagedSandbox
