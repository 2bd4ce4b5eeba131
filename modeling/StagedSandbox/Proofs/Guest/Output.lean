import StagedSandbox.Guest.Calls
import StagedSandbox.Proofs.Action
import StagedSandbox.Proofs.Text.Lossy

/-!
# The output streams

What the console shows of the output stream depends on the bytes written to it alone, not on the
pieces in which they were written; a text that is written to one of the streams while nothing is
held back is shown as it is.
-/

namespace StagedSandbox

namespace Console

theorem append_append (console : Console) (first second : String) :
    (console.append first).append second = console.append (first ++ second) := by
  simp only [append, String.append_assoc]

theorem append_empty (console : Console) : console.append "" = console := by
  simp only [append, String.append_empty]

end Console

namespace Guest

/-- The guest after bytes were written to its output stream. -/
def wrote (g : Guest) (data : Bytes) : Guest :=
  { g with
    heldOut := (Text.Utf8.decode g.heldOut data.list).2
    console := g.console.append (String.ofList (Text.Utf8.decode g.heldOut data.list).1) }

theorem wrote_empty {g : Guest} (h : Text.Utf8.Holds g.heldOut) :
    g.wrote ByteArray.empty = g := by
  have hlist : Bytes.list ByteArray.empty = [] := rfl
  simp only [wrote, hlist, Text.Utf8.decode_nil h, String.ofList_nil, Console.append_empty]

theorem holds_wrote (g : Guest) (data : Bytes) : Text.Utf8.Holds (g.wrote data).heldOut :=
  Text.Utf8.holds_decode g.heldOut data.list

/-- Two writes are one write of both. -/
theorem wrote_append (g : Guest) (first second : Bytes) :
    g.wrote (first ++ second) = (g.wrote first).wrote second := by
  simp only [wrote, Bytes.list_append, Text.Utf8.decode_append, Console.append_append,
    String.ofList_append]

/-- A text is shown as it is if nothing is held back. -/
theorem wrote_ofText {g : Guest} (h : g.heldOut = []) (text : String) :
    g.wrote (Bytes.ofText text) = { g with console := g.console.append text } := by
  simp only [wrote, h, Bytes.decode_ofText, String.ofList_toList]

theorem write_stdout {g : Guest} {fd : Nat} (h : g.descriptors.get? fd = some .stdout)
    (data : Bytes) : write fd data g = .ok data.size (g.wrote data) := by
  have hfd : descriptor fd g = .ok .stdout g := by rw [descriptor, h]
  rw [write, Action.run_bind_of_ok hfd]
  rfl

/-- A text that is written to the error stream is shown as it is if nothing is held back. -/
theorem write_stderr {g : Guest} {fd : Nat} (h : g.descriptors.get? fd = some .stderr)
    (hheld : g.heldErr = []) (text : String) :
    write fd (Bytes.ofText text) g =
      .ok (Bytes.ofText text).size { g with console := g.console.append text } := by
  have hfd : descriptor fd g = .ok .stderr g := by rw [descriptor, h]
  have hshown : writeErr (Bytes.ofText text) g =
      .ok () { g with console := g.console.append text } := by
    rw [writeErr, Action.run_modify]
    simp only [hheld, Bytes.decode_ofText, String.ofList_toList]
  rw [write, Action.run_bind_of_ok hfd]
  simp only
  rw [Action.run_bind_of_ok hshown]
  rfl

/-- Nothing is written out at the end if nothing is held back. -/
theorem finish_of_held {g : Guest} (hout : g.heldOut = []) (herr : g.heldErr = []) :
    g.finish = g := by
  have hnone : Text.Utf8.finish [] = [] := by rw [Text.Utf8.finish, Text.Utf8.lossy]
  have hconsole : g.console.append (String.ofList ([] ++ [])) = g.console :=
    g.console.append_empty
  rw [finish, hout, herr, hnone, hconsole]
  obtain ⟨fs, descriptors, arguments, environment, heldOut, heldErr, entropy, console⟩ := g
  obtain rfl : heldOut = [] := hout
  obtain rfl : heldErr = [] := herr
  rfl

end Guest

end StagedSandbox
