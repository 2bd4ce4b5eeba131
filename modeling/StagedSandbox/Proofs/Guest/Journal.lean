import StagedSandbox.Proofs.Guest.Streams
import StagedSandbox.Proofs.Text.Lossy

/-!
# Journals

A journal lists the system calls of a program with their replies. It tells all that the program has
shown (`Guest.Session.text_finish`): its writes to the two streams, in order, each of them decoded
with what its own stream held back, and at the end what is still held back. What one stream shows
in all is the lossy reading of all that was written to it (`Journal.pieces_stream`).
-/

namespace StagedSandbox

open StagedSandbox.Action

/-- System calls and their replies, in order. -/
abbrev Journal := List (SystemCall × Except Errno Reply)

namespace Journal

open Text.Utf8

/-- The bytes written to the streams, in order, each with the number of the stream. -/
def streamWrites (journal : Journal) : List (Nat × List UInt8) :=
  journal.filterMap fun entry => Guest.streamWrite? entry.1 entry.2

/-- The texts that writes to the streams complete, in order, each with the number of its stream;
and last what the output stream and then the error stream still hold. -/
def pieces (held : Nat → List UInt8) : List (Nat × List UInt8) → List (Nat × List Char)
  | [] => [(1, finish (held 1)), (2, finish (held 2))]
  | (fd, data) :: rest =>
    (fd, (decode (held fd) data).1) ::
      pieces (Function.update held fd (decode (held fd) data).2) rest

/-- The text that a program shows which starts with nothing held back. -/
def output (journal : Journal) : List Char :=
  (pieces (fun _ => []) journal.streamWrites).flatMap Prod.snd

/-- Whatever is written to the other stream in between, a stream shows what was written to it. -/
theorem pieces_stream {held : Nat → List UInt8} {fd : Nat} (hfd : fd = 1 ∨ fd = 2)
    (h : Holds (held fd)) (writes : List (Nat × List UInt8)) :
    ((pieces held writes).filter (·.1 = fd)).flatMap Prod.snd =
      lossy (held fd ++ (writes.filter (·.1 = fd)).flatMap Prod.snd) := by
  induction writes generalizing held with
  | nil =>
    rcases hfd with rfl | rfl <;> simp [pieces, finish]
  | cons write rest ih =>
    obtain ⟨other, data⟩ := write
    let held' := Function.update held other (decode (held other) data).2
    have hpieces : pieces held ((other, data) :: rest) =
        (other, (decode (held other) data).1) :: pieces held' rest := rfl
    by_cases hother : other = fd
    · subst hother
      obtain ⟨hholds, hdecode⟩ := lossy_decode h data ((rest.filter (·.1 = other)).flatMap Prod.snd)
      have hself : held' other = (decode (held other) data).2 := Function.update_self ..
      have hrest := ih (hself ▸ hholds)
      rw [hself] at hrest
      simp only [hpieces, decide_true, List.filter_cons_of_pos, List.flatMap_cons, hrest, hdecode]
    · have hkept : held' fd = held fd := Function.update_of_ne (Ne.symm hother) ..
      have hrest := ih (hkept ▸ h)
      rw [hkept] at hrest
      simp only [hpieces, hother, decide_false, Bool.false_eq_true, not_false_eq_true,
        List.filter_cons_of_neg, hrest]

end Journal

namespace Guest

variable {α : Type} {g g' g'' : Guest}

/-- A guest becomes another one by the calls of a journal, which are answered as it says. The
replies may be noted on the console. -/
inductive Session : Guest → Journal → Guest → Prop where
  | done (g : Guest) : Session g [] g
  | call {g g' : Guest} {c : SystemCall} {journal : Journal} :
    Session (g.call c).2 journal g' → Session g ((c, (g.call c).1) :: journal) g'
  | note {g g' : Guest} {reply : Except Errno Reply} {journal : Journal} :
    Session { g with console := g.console.note reply } journal g' → Session g journal g'

/-- What a session shows until the streams are written out. -/
theorem Session.text_finish {journal : Journal} (h : Session g journal g') (hstreams : g.Streams) :
    g'.finish.console.text = g.console.text ++
      String.ofList ((Journal.pieces g.held journal.streamWrites).flatMap Prod.snd) := by
  induction h with
  | done g =>
    simp only [Journal.streamWrites, List.filterMap_nil, Journal.pieces, List.flatMap_cons,
      List.flatMap_nil, List.append_nil]
    rfl
  | @call g g' c journal _ ih =>
    have hshows := call_shows hstreams c
    cases hwrite : streamWrite? c (g.call c).1 with
    | none =>
      rw [hwrite] at hshows
      obtain ⟨hstreams, hheld, htext⟩ := hshows
      rw [ih hstreams, hheld, htext]
      simp only [Journal.streamWrites, List.filterMap_cons, hwrite]
    | some write =>
      obtain ⟨fd, data⟩ := write
      rw [hwrite] at hshows
      rw [ih hshows.streams, hshows.held, hshows.text]
      simp only [Journal.streamWrites, List.filterMap_cons, hwrite, Journal.pieces,
        List.flatMap_cons, String.ofList_append, String.append_assoc]
  | note _ ih => exact ih hstreams

/-! ### Actions made of calls -/

/-- A guest becomes another one by system calls. -/
def ByCalls (g g' : Guest) : Prop := ∃ journal, Session g journal g'

theorem Session.trans {journal journal' : Journal} (h : Session g journal g')
    (h' : Session g' journal' g'') : Session g (journal ++ journal') g'' := by
  induction h with
  | done => exact h'
  | call _ ih => exact .call (ih h')
  | note _ ih => exact .note (ih h')

instance : Std.Refl ByCalls := ⟨fun g => ⟨[], .done g⟩⟩

instance : Trans ByCalls ByCalls ByCalls where
  trans := by
    rintro _ _ _ ⟨journal, h⟩ ⟨journal', h'⟩
    exact ⟨journal ++ journal', h.trans h'⟩

theorem byCalls_call (g : Guest) (c : SystemCall) : ByCalls g (g.call c).2 :=
  ⟨[(c, (g.call c).1)], .call (.done _)⟩

theorem byCalls_note (g : Guest) (reply : Except Errno Reply) :
    ByCalls g { g with console := g.console.note reply } := ⟨[], .note (.done _)⟩

/-- An action that is a call, but for the form of its answer. -/
theorem byCalls_of_perform {x : Action α} (c : SystemCall) {reply : α → Reply}
    (h : perform c = x >>= fun a => pure (reply a)) : Leads ByCalls x := by
  intro g
  rw [← left_map reply, ← h, ← call_snd]
  exact byCalls_call g c

end Guest

end StagedSandbox
