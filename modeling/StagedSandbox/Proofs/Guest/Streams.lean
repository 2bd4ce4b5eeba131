import StagedSandbox.Proofs.Guest.Steps

/-!
# The streams of a guest

Descriptor 1 is the output stream or closed, descriptor 2 is the error stream or closed, and no
other descriptor is one of them (`Guest.Streams`). Every call keeps it so, and no call but a write
to one of the two adds to the text on the console or to what a stream holds back
(`Guest.call_shows`).
-/

namespace StagedSandbox.Guest

open StagedSandbox.Action

variable {g g' : Guest}

/-- The two streams are where they were opened, unless they are closed. -/
def Streams (g : Guest) : Prop :=
  ∀ fd d, g.descriptors.get? fd = some d → (d = .stdout ↔ fd = 1) ∧ (d = .stderr ↔ fd = 2)

/-- The bytes that are held back for a descriptor. -/
def held (g : Guest) (fd : Nat) : List UInt8 :=
  if fd = 1 then g.heldOut else if fd = 2 then g.heldErr else []

theorem streams_iff : g.Streams ↔ g.Fixed .stdout 1 ∧ g.Fixed .stderr 2 :=
  ⟨fun h => ⟨fun fd d hget => (h fd d hget).1, fun fd d hget => (h fd d hget).2⟩,
    fun h fd d hget => ⟨h.1 fd d hget, h.2 fd d hget⟩⟩

theorem Steps.streams (h : Steps g g') (hstreams : g.Streams) : g'.Streams :=
  streams_iff.mpr ⟨h.fixed nofun (by decide) (streams_iff.mp hstreams).1,
    h.fixed nofun (by decide) (streams_iff.mp hstreams).2⟩

theorem Steps.held (h : Steps g g') : g'.held = g.held := by
  funext fd
  rw [Guest.held, Guest.held, h.quiet.1, h.quiet.2.1]

/-! ### At the start -/

theorem exists_of_mem_preopened {preopens : List Preopen} {d : Descriptor}
    (h : d ∈ preopened preopens) : ∃ guest path, d = .preopen guest path := by
  obtain ⟨preopen, -, hd⟩ := List.mem_filterMap.1 h
  split at hd
  · exact ⟨_, _, (Option.some.inj hd).symm⟩
  · cases hd

/-- Each of the three streams is opened at its number. -/
theorem fixed_start (fs : Fs) (console : Console) (arguments : List String)
    (environment : List (String × String)) (preopens : List Preopen)
    (entropy : Entropy) {s : Descriptor} {n : Nat}
    (hs : [Descriptor.stdin, .stdout, .stderr][n]? = some s) :
    (start fs console arguments environment preopens entropy).Fixed s n := by
  intro fd d hget
  obtain ⟨⟨d, fd⟩, hentry, ⟨⟩⟩ := List.mem_map.1 (Table.mem_of_get? hget)
  rw [List.mk_mem_zipIdx_iff_getElem?] at hentry
  have hn : n < 3 := (List.getElem?_eq_some_iff.1 hs).1
  by_cases hfd : fd < 3
  · have hd : ([Descriptor.stdin, .stdout, .stderr] ++ preopened preopens)[fd]? = some d := hentry
    rw [List.getElem?_append_left hfd] at hd
    have hnodup : [Descriptor.stdin, .stdout, .stderr].Nodup := by decide
    constructor
    · rintro rfl
      exact (List.getElem?_inj hfd hnodup).mp (hd.trans hs.symm)
    · rintro rfl
      exact Option.some.inj (hd.symm.trans hs)
  · obtain ⟨k, rfl⟩ := Nat.exists_eq_add_of_le' (Nat.not_lt.mp hfd)
    obtain ⟨guest, path, rfl⟩ := exists_of_mem_preopened (List.mem_of_getElem? hentry)
    refine iff_of_false ?_ (by omega)
    rintro rfl
    have := List.mem_of_getElem? hs
    simp at this

theorem streams_start (fs : Fs) (console : Console) (arguments : List String)
    (environment : List (String × String)) (preopens : List Preopen) (entropy : Entropy) :
    (start fs console arguments environment preopens entropy).Streams :=
  streams_iff.mpr ⟨fixed_start fs console arguments environment preopens entropy rfl,
    fixed_start fs console arguments environment preopens entropy rfl⟩

/-! ### Writing -/

/-- What a write to a stream shows, and what is held back then. -/
structure Wrote (fd : Nat) (data : List UInt8) (g g' : Guest) : Prop where
  streams : g'.Streams
  held : g'.held = Function.update g.held fd (Text.Utf8.decode (g.held fd) data).2
  text : g'.console.text = g.console.text ++
    String.ofList (Text.Utf8.decode (g.held fd) data).1

theorem held_writeOut (data : Bytes) :
    (left (writeOut data) g).held =
      Function.update g.held 1 (Text.Utf8.decode (g.held 1) data.list).2 := by
  funext fd
  by_cases hfd : fd = 1
  · subst hfd
    rw [Function.update_self]
    rfl
  · rw [Function.update_of_ne hfd, held, held, if_neg hfd, if_neg hfd]
    rfl

theorem held_writeErr (data : Bytes) :
    (left (writeErr data) g).held =
      Function.update g.held 2 (Text.Utf8.decode (g.held 2) data.list).2 := by
  funext fd
  by_cases hfd : fd = 2
  · subst hfd
    rw [Function.update_self]
    rfl
  · rw [Function.update_of_ne hfd, held, held, if_neg hfd, if_neg hfd]
    rfl

/-- A stream that is not closed takes all that is written to it. -/
theorem write_stream (hstreams : g.Streams) {fd : Nat} (hfd : fd = 1 ∨ fd = 2) (data : Bytes) :
    (∃ n g', write fd data g = .ok n g' ∧ Wrote fd data.list g g') ∨
      ∃ e, write fd data g = .error e g := by
  cases hget : g.descriptors.get? fd with
  | none =>
    right
    rw [write, run_bind, descriptor, hget]
    exact ⟨.badf, rfl⟩
  | some d =>
    left
    obtain ⟨hout, herr⟩ := hstreams fd d hget
    rw [write, run_bind_of_ok (descriptor_eq hget)]
    rcases hfd with rfl | rfl
    · obtain rfl := hout.mpr rfl
      exact ⟨data.size, left (writeOut data) g, rfl, hstreams, held_writeOut data, rfl⟩
    · obtain rfl := herr.mpr rfl
      exact ⟨data.size, left (writeErr data) g, rfl, hstreams, held_writeErr data, rfl⟩

/-! ### All calls -/

/-- The bytes that a call has written to one of the two streams, with the number of the stream. A
write that fails counts for nothing. -/
def streamWrite? : SystemCall → Except Errno Reply → Option (Nat × List UInt8)
  | .write fd data, .ok _ => if fd = 1 ∨ fd = 2 then some (fd, data.list) else none
  | _, _ => none

/-- A call adds to the output just what it writes to one of the two streams. -/
theorem call_shows (hstreams : g.Streams) (c : SystemCall) :
    match streamWrite? c (g.call c).1 with
    | some (fd, data) => Wrote fd data g (g.call c).2
    | none =>
      (g.call c).2.Streams ∧ (g.call c).2.held = g.held ∧
        (g.call c).2.console.text = g.console.text := by
  by_cases hwrite : ∃ fd data, c = .write fd data ∧ (fd = 1 ∨ fd = 2)
  · obtain ⟨fd, data, rfl, hfd⟩ := hwrite
    rcases write_stream hstreams hfd data with ⟨n, g', hrun, hwrote⟩ | ⟨e, hrun⟩
    · have hcall : g.call (.write fd data) = (.ok (.count n), g') := by
        rw [call, perform, run_bind_of_ok hrun, run_pure]
      rw [hcall, streamWrite?, if_pos hfd]
      exact hwrote
    · have hcall : g.call (.write fd data) = (.error e, g) := by
        rw [call, perform, run_bind_of_error hrun]
      rw [hcall, streamWrite?]
      · exact ⟨hstreams, rfl, rfl⟩
      · simp
  · have hnone : streamWrite? c (g.call c).1 = none := by
      rw [streamWrite?.eq_def]
      split
      · exact if_neg fun hfd => hwrite ⟨_, _, rfl, hfd⟩
      · rfl
    have hsteps : Steps g (g.call c).2 := by
      refine (call_cases g c).resolve_right fun hshows => hwrite ?_
      generalize (g.call c).2 = g' at hshows
      cases hshows with
      | @out fd hfd data => exact ⟨fd, data, rfl, Or.inl ((hstreams fd _ hfd).1.mp rfl)⟩
      | @err fd hfd data => exact ⟨fd, data, rfl, Or.inr ((hstreams fd _ hfd).2.mp rfl)⟩
    rw [hnone]
    exact ⟨hsteps.streams hstreams, hsteps.held, congrArg Console.text hsteps.quiet.2.2⟩

end StagedSandbox.Guest
