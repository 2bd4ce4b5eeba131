import StagedSandbox.Proofs.Object.Text
import StagedSandbox.Proofs.Tool.Clean
import StagedSandbox.Proofs.Tool.Closing
import StagedSandbox.Proofs.Tool.Linker
import StagedSandbox.Proofs.Wasm.Placement

/-!
# The layout of what was linked

A link that succeeds has left a program whose memory layout is sound (`Tool.Linker.link_placed`).
The linker may count addresses in words of 32 bits or as natural numbers: the two ways differ only
for programs whose text no file can hold, and writing these fails in the same way.
-/

namespace StagedSandbox.Tool.Linker

open StagedSandbox.Action Wasm

variable {g g' : Guest}

/-! ### Counting in words -/

/-- Link the inputs to the output, with addresses counted in words of 32 bits. -/
def linkByCursor (l : Link) : Native Unit := do
  if l.inputs = [] then complain .noInputs
  match l.output with
  | none => complain .noOutput
  | some output =>
    let objects ← readInputs l.inputs
    if objects = [] then complain .noEntry
    let linked := Linked.ofCursor objects.flatten
    match ← Native.attempt (writeFile output (Bytes.ofText linked.render)) with
    | .ok _ => return
    | .error e => complain (.cannotWrite output e)

/-- A program that is laid out in another way is too large for a file in both ways. -/
theorem writeFile_ofCursor (name : String) (ops : List Op) :
    writeFile name (Bytes.ofText (Linked.ofCursor ops).render) =
      writeFile name (Bytes.ofText (Linked.ofOps ops).render) := by
  by_cases h : (Bytes.ofText (Linked.ofCursor ops).render).size ≤ Fs.maxFileSize ∨
      (Bytes.ofText (Linked.ofOps ops).render).size ≤ Fs.maxFileSize
  · rw [Linked.ofCursor_eq_of_size_render h]
  · obtain ⟨hcursor, hops⟩ := not_or.1 h
    funext g
    rw [writeFile_of_tooLarge (Nat.lt_of_not_le hcursor),
      writeFile_of_tooLarge (Nat.lt_of_not_le hops)]

/-- It makes no difference to a link that addresses are counted in words. -/
theorem linkByCursor_eq (l : Link) : linkByCursor l = link l := by
  rw [linkByCursor]
  simp only [writeFile_ofCursor]
  rfl

/-! ### Links that succeed -/

theorem complain_ne_ok {α : Type} (c : Complaint) (a : α) :
    (complain c : Native α) g ≠ .ok a g' := Compiler.fail_ne_ok c.message a

/-- What goes on after a check has passed it. -/
theorem ok_of_check {α : Type} {p : Prop} [Decidable p] {c : Complaint} {f : Unit → Native α}
    {rest : Native α} {a : α} (h : (if p then complain c >>= f else rest) g = .ok a g') :
    ¬ p ∧ rest g = .ok a g' := by
  by_cases hp : p
  · rw [if_pos hp] at h
    obtain ⟨u, t, hcomplain, -⟩ := exists_of_bind h
    exact absurd hcomplain (complain_ne_ok c u)
  · rw [if_neg hp] at h
    exact ⟨hp, h⟩

theorem reads_of_readInputs {names : List String} {objects : List (List Op)}
    (h : readInputs names g = .ok objects g') : g' = g ∧ Reads g names objects := by
  induction names generalizing objects g' with
  | nil =>
    obtain ⟨rfl, rfl⟩ := EStateM.Result.ok.inj h
    exact ⟨rfl, .nil⟩
  | cons name rest ih =>
    obtain ⟨data, t, hread, hparsed⟩ := Native.ok_of_attempt h fun e t => complain_ne_ok _ _
    obtain ⟨rfl, hdata⟩ := yields_of_readFile hread
    dsimp only at hparsed
    cases hparse : ObjectFile.parse? data with
    | none =>
      rw [hparse] at hparsed
      obtain ⟨rfl, hrest⟩ := ih hparsed
      exact ⟨rfl, .other hdata hparse hrest⟩
    | some parsed =>
      rw [hparse] at hparsed
      cases parsed with
      | error e => exact absurd hparsed (complain_ne_ok _ _)
      | ok o =>
        obtain ⟨more, t', hmore, hlast⟩ := exists_of_bind hparsed
        obtain ⟨rfl, hrest⟩ := ih hmore
        obtain ⟨rfl, rfl⟩ := EStateM.Result.ok.inj hlast
        exact ⟨rfl, .object hdata hparse hrest⟩

/-- A link that succeeds has read its inputs and written their program. -/
theorem link_ok {l : Link} (h : link l g = .ok () g') :
    ∃ output objects, l.output = some output ∧ Reads g l.inputs objects ∧
      writeFile output (Bytes.ofText (Linked.ofOps objects.flatten).render) g = .ok () g' := by
  obtain ⟨-, hlink⟩ := ok_of_check h
  dsimp only at hlink
  cases houtput : l.output with
  | none =>
    rw [houtput] at hlink
    exact absurd hlink (complain_ne_ok _ ())
  | some output =>
    rw [houtput] at hlink
    obtain ⟨objects, t, hread, hlinked⟩ := exists_of_bind hlink
    obtain ⟨rfl, hobjects⟩ := reads_of_readInputs hread
    obtain ⟨-, hattempt⟩ := ok_of_check hlinked
    obtain ⟨_, t', hwrite, hdone⟩ := Native.ok_of_attempt hattempt fun e t => complain_ne_ok _ ()
    obtain ⟨-, rfl⟩ := EStateM.Result.ok.inj hdone
    exact ⟨output, objects, rfl, hobjects, hwrite⟩

theorem program_ok (h : program g = .ok () g') :
    ∃ l, Link.parse {} (g.arguments.drop 1) = .ok l ∧ link l g = .ok () g' := by
  rw [program, run_bind_of_ok (arguments_eq g)] at h
  cases hparse : Link.parse {} (g.arguments.drop 1) with
  | ok l =>
    rw [hparse] at h
    exact ⟨l, rfl, h⟩
  | error c =>
    rw [hparse] at h
    exact absurd h (complain_ne_ok c ())

/-! ### The program that was linked -/

/-- A link may count its addresses in words. If it succeeds, its output holds the program of the
operations that it has read, laid out by a cursor of 32 bits. Its text stands for the module of the
program, and the layout of the program is sound. -/
theorem link_placed :
    linkByCursor = link ∧
      ∀ {g g' : Guest}, program g = .ok () g' →
        ∃ l output objects, Link.parse {} (g.arguments.drop 1) = .ok l ∧
          l.output = some output ∧ Reads g l.inputs objects ∧
          let linked := Linked.ofCursor objects.flatten
          readFile output g' = .ok (Bytes.ofText linked.render) g' ∧
            Definition.ofText? linked.render = some linked.definition ∧
            Linked.Placed objects.flatten linked := by
  refine ⟨funext linkByCursor_eq, fun {g g'} h => ?_⟩
  obtain ⟨l, hparse, hlink⟩ := program_ok h
  obtain ⟨output, objects, houtput, hobjects, hwrite⟩ := link_ok hlink
  obtain ⟨-, -, -, -, -, hsize, -, -⟩ := writeFile_ok hwrite
  rw [← Linked.ofCursor_eq_of_size_render (.inr hsize)] at hwrite hsize
  have hfits : (Linked.ofCursor objects.flatten).Fits := by
    have heq := Linked.ofCursor_eq_of_size_render (.inl hsize)
    rw [heq] at hsize ⊢
    exact Linked.fits_ofOps (Linked.dataSize_le_of_size_render hsize)
  exact ⟨l, output, objects, hparse, houtput, hobjects, readFile_of_writeFile hwrite,
    Linked.ofText?_render hfits, Linked.placed_of_size_render hsize⟩

/-- The same object file twice is linked into one program, with the data of both. -/
theorem link_placed_twice :
    let o : ObjectFile := ⟨some "/a.pr", [.write (Bytes.ofText "hi"), .exit 0]⟩
    let g := Guest.start [("a", .file (Bytes.ofText o.render))] {}
      ["wasm-ld", "/a", "/a", "-o", "/p"] [] [Preopen.root] .zeros
    ∃ g', program g = .ok () g' ∧
      ∃ l output objects, Link.parse {} (g.arguments.drop 1) = .ok l ∧ l.output = some output ∧
        Reads g l.inputs objects ∧
        let linked := Linked.ofCursor objects.flatten
        readFile output g' = .ok (Bytes.ofText linked.render) g' ∧
          Definition.ofText? linked.render = some linked.definition ∧
          Linked.Placed objects.flatten linked := by
  intro o g
  have hroot : g.descriptors = Guest.rootDescriptors := rfl
  have hfree := Guest.free_root hroot
  have hreach : g.Reaches "/a" ["a"] := Guest.reaches_root hroot (by decide)
  have hfile : g.fs.lookup ["a"] = some (.file (Bytes.ofText o.render)) := rfl
  have hsize : (Bytes.ofText o.render).size < UInt64.size := by decide +kernel
  have hsource : ∀ path ∈ o.source, '\n' ∉ path.toList := by decide
  obtain ⟨named, hparse⟩ := o.parse?_render hsource
  let l : Link := ⟨["/a", "/a"], some "/p"⟩
  have hlink : Link.parse {} (g.arguments.drop 1) = .ok l := by decide
  have hobjects : readInputs l.inputs g = .ok [o.ops, o.ops] g :=
    readInputs_object (o := ⟨named, o.ops⟩) hreach hfree hfile hsize hparse
      (readInputs_object (o := ⟨named, o.ops⟩) hreach hfree hfile hsize hparse rfl)
  have haccepts : g.fs.Accepts ["p"] := Fs.accepts_singleton fun h => nomatch h
  have hprogram : (Bytes.ofText (Linked.ofOps [o.ops, o.ops].flatten).render).size ≤
      Fs.maxFileSize := by decide +kernel
  obtain ⟨fs, -, hwritten⟩ := link_eq (l := l) rfl (List.cons_ne_nil _ _) hobjects
    (List.cons_ne_nil _ _) (Guest.reaches_root hroot (show Path.parse? "/p" = some ["p"] by decide))
    hfree haccepts hprogram
  have h := (program_link hlink).trans hwritten
  exact ⟨_, h, link_placed.2 h⟩

end StagedSandbox.Tool.Linker
