import StagedSandbox.Proofs.Tool.Compiler
import StagedSandbox.Tool.Linker

/-!
# The linker succeeds on readable inputs

A link reads its inputs in order, skips those that are no object files, and leaves the linked
program of the operations of the others.
-/

namespace StagedSandbox.Tool.Linker

open StagedSandbox.Action Guest

variable {g : Guest} {fd : Nat} {path : Path}

/-! ### Inputs -/

/-- An input that is no object file only has to be there. -/
theorem readInputs_other {name : String} {data : Bytes} (hreach : g.Reaches name path)
    (hfree : g.Free fd) (hfile : g.fs.lookup path = some (.file data))
    (hsize : data.size < UInt64.size)
    (hother : ObjectFile.parse? data = none) (rest : List String) :
    readInputs (name :: rest) g = readInputs rest g := by
  rw [readInputs, run_bind_of_ok (Native.attempt_eq (readFile_eq hreach hfree hfile hsize))]
  simp only [hother]

/-- The operations of an object file come before those of later ones. -/
theorem readInputs_object {name : String} {data : Bytes} {o : ObjectFile}
    {rest : List String} {objects : List (List Op)} (hreach : g.Reaches name path)
    (hfree : g.Free fd) (hfile : g.fs.lookup path = some (.file data))
    (hsize : data.size < UInt64.size)
    (hobject : ObjectFile.parse? data = some (.ok o))
    (hrest : readInputs rest g = .ok objects g) :
    readInputs (name :: rest) g = .ok (o.ops :: objects) g := by
  rw [readInputs, run_bind_of_ok (Native.attempt_eq (readFile_eq hreach hfree hfile hsize))]
  simp only [hobject]
  rw [run_bind_of_ok hrest]
  rfl

/-! ### A link -/

/-- A link of object files whose linked program can be written succeeds. -/
theorem link_eq {l : Link} {output : String} {objects : List (List Op)}
    (houtput : l.output = some output) (hinputs : l.inputs ≠ [])
    (hobjects : readInputs l.inputs g = .ok objects g) (hne : objects ≠ [])
    (hreach : g.Reaches output path) (hfree : g.Free fd) (haccepts : g.fs.Accepts path)
    (hsize : (Bytes.ofText (Wasm.Linked.ofOps objects.flatten).render).size ≤ Fs.maxFileSize) :
    ∃ fs, g.fs.Replaced path
        (some (.file (Bytes.ofText (Wasm.Linked.ofOps objects.flatten).render))) fs ∧
      link l g = .ok () { g with fs } := by
  obtain ⟨fs, hfs, hwrite⟩ := writeFile_eq hreach hfree haccepts hsize
  refine ⟨fs, hfs, ?_⟩
  simp only [link, hinputs, if_false, houtput]
  rw [run_bind_of_ok hobjects]
  simp only [hne, if_false]
  rw [run_bind_of_ok (Native.attempt_eq hwrite)]
  rfl

theorem program_link {l : Link} (h : Link.parse {} (g.arguments.drop 1) = .ok l) :
    program g = link l g := by
  rw [program, run_bind_of_ok (arguments_eq g), h]

end StagedSandbox.Tool.Linker
