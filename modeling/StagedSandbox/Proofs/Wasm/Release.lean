import StagedSandbox.Proofs.Object.Merge
import StagedSandbox.Proofs.Stage.Run
import StagedSandbox.Proofs.Text.Lossy

/-!
# Release builds run like plain ones

A release build merges writes before the program is laid out, so that its module differs from the
plain one in its data, in its calls and in its text. On an engine that runs both texts, any stage
runs the same with one as with the other: it ends in the same way, shows the same text, and leaves
the same file system (`Wasm.Linked.run_release`). Only where a module stopped, the engine may tell
in other words.
-/

namespace StagedSandbox.Wasm.Linked

/-- The text that a guest shows which writes some bytes to its output stream. -/
theorem text_finish_wrote {g : Guest} (hout : g.heldOut = []) (herr : g.heldErr = [])
    (data : Bytes) :
    (g.wrote data).finish.console.text =
      g.console.text ++ String.ofList (Text.Utf8.lossy data.list) := by
  have hread := (Text.Utf8.lossy_decode (.inl rfl) data.list []).2
  rw [List.append_nil, List.append_nil, List.nil_append] at hread
  have hnone : Text.Utf8.finish [] = [] := Text.Utf8.lossy_nil
  simp only [Guest.finish, Guest.wrote, hout, herr, hnone, List.append_nil, Console.append_append,
    ← String.ofList_append, Console.text_append]
  rw [hread, Text.Utf8.finish]

/-- On an engine that runs its text, the module of a program ends a stage as the operations say,
and shows what they write. -/
theorem run_linked {ops : List Op} (h : dataBase + dataSize ops ≤ maxPages * Memory.pageSize)
    {engine : Engine} (hengine : engine.RunsText (ofOps ops).render) (s : Stage) (fs : Fs)
    (console : Console) :
    let signal : Signal := .ofStop (Op.stop ops)
    ∃ trace, { s with source := .bytes (Bytes.ofText (ofOps ops).render) }.run engine fs console =
      (.ok ⟨signal, trace⟩, fs, ((s.guest fs console).wrote (Op.written ops)).finish.console.append
        (s.report ⟨signal, trace⟩ ++ "\n")) := by
  intro signal
  obtain ⟨module, hcompile, hrun⟩ := StageSource.start_linked h hengine
  obtain ⟨trace, hstart⟩ := hrun (s.guest fs console) rfl (.inl rfl)
  refine ⟨trace, ?_⟩
  have hsource : (StageSource.bytes (Bytes.ofText (ofOps ops).render)).start engine
      (s.guest fs console) =
        (.ok ⟨signal, trace⟩, (s.guest fs console).wrote (Op.written ops)) := by
    rw [StageSource.start, StageSource.compile, hcompile]
    exact hstart
  let run : Stage := { s with source := .bytes (Bytes.ofText (ofOps ops).render) }
  exact Stage.run_of_start (s := run) hsource

/-- Merging leaves no two writes next to each other, keeps what is written between the other
operations, and changes nothing when it is done again. A program whose text is not too large for a
file runs the same after merging: any stage that is given the one text or the other, on an engine
that runs both, ends in the same way, leaves the same file system, and shows the same text before
it is reported. -/
theorem run_release (ops : List Op) :
    Op.Merged (Op.mergeWrites ops) ∧ Op.sections (Op.mergeWrites ops) = Op.sections ops ∧
      Op.mergeWrites (Op.mergeWrites ops) = Op.mergeWrites ops ∧
      ∀ engine : Engine, (Bytes.ofText (ofOps ops).render).size ≤ Fs.maxFileSize →
        engine.RunsText (ofOps ops).render → engine.RunsText (ofOps (Op.mergeWrites ops)).render →
        ∀ (s : Stage) (fs : Fs) (console : Console),
          ∃ (signal : Signal) (shown : Console) (plain release : Option String),
          { s with source := .bytes (Bytes.ofText (ofOps ops).render) }.run engine fs console =
              (.ok ⟨signal, plain⟩, fs, shown.append (s.report ⟨signal, plain⟩ ++ "\n")) ∧
            { s with source := .bytes (Bytes.ofText (ofOps (Op.mergeWrites ops)).render) }.run
                engine fs console =
              (.ok ⟨signal, release⟩, fs, shown.append (s.report ⟨signal, release⟩ ++ "\n")) ∧
            signal = .ofStop (Op.stop ops) ∧
            shown.text = console.text ++ (s.commandLine ++ "\n") ++
              String.ofList (Text.Utf8.lossy (Op.written ops).list) := by
  have hmerged := Op.merged_mergeWrites ops
  refine ⟨hmerged, Op.sections_mergeWrites ops, Op.mergeWrites_of_merged hmerged, ?_⟩
  intro engine hsize hplain hrelease s fs console
  have hdata := dataSize_le_of_size_render hsize
  have hdata' := hdata
  rw [← dataSize_mergeWrites] at hdata'
  obtain ⟨plain, hrun⟩ := run_linked hdata hplain s fs console
  obtain ⟨release, hrun'⟩ := run_linked hdata' hrelease s fs console
  rw [Op.stop_mergeWrites, Op.written_mergeWrites] at hrun'
  refine ⟨_, _, plain, release, hrun, hrun', rfl, ?_⟩
  rw [text_finish_wrote rfl rfl]
  simp only [Stage.guest, Guest.start, Console.text_append]

/-- A character that is written in two pieces, an empty write, and one that comes after the exit. -/
def splitCharacter : List Op :=
  [.write ⟨#[0xc3]⟩, .write ⟨#[0xa9]⟩, .write ByteArray.empty, .exit 3, .write ⟨#[0x21]⟩]

theorem run_release_splitCharacter :
    Op.mergeWrites splitCharacter = [.write ⟨#[0xc3, 0xa9]⟩, .exit 3, .write ⟨#[0x21]⟩] ∧
      (Bytes.ofText (ofOps splitCharacter).render).size ≤ Fs.maxFileSize ∧
      let plainText := Bytes.ofText (ofOps splitCharacter).render
      let releaseText := Bytes.ofText (ofOps (Op.mergeWrites splitCharacter)).render
      let s : Stage :=
        { name := "run", source := .bytes plainText, arguments := ["/p"], entropy := .zeros }
      ∃ (shown : Console) (plain release : Option String),
        s.run .interpreter [] {} =
            (.ok ⟨.exited 3, plain⟩, [], shown.append (s.report ⟨.exited 3, plain⟩ ++ "\n")) ∧
          { s with source := .bytes releaseText }.run .interpreter [] {} =
            (.ok ⟨.exited 3, release⟩, [],
              shown.append (s.report ⟨.exited 3, release⟩ ++ "\n")) ∧
          shown.text = "$ /p\né" := by
  have hsize : (Bytes.ofText (ofOps splitCharacter).render).size ≤ Fs.maxFileSize := by
    decide +kernel
  refine ⟨by decide, hsize, ?_⟩
  intro plainText releaseText s
  obtain ⟨-, -, -, hengines⟩ := run_release splitCharacter
  obtain ⟨signal, shown, plain, release, hplain, hrelease, rfl, htext⟩ :=
    hengines .interpreter hsize (Engine.runsText_interpreter _) (Engine.runsText_interpreter _)
      s [] {}
  have hshown : ({} : Console).text ++ (s.commandLine ++ "\n") ++
      String.ofList (Text.Utf8.lossy (Op.written splitCharacter).list) = "$ /p\né" := by
    decide +kernel
  exact ⟨shown, plain, release, hplain, hrelease, htext.trans hshown⟩

end StagedSandbox.Wasm.Linked
