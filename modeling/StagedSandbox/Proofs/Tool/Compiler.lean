import StagedSandbox.Proofs.Tool.Files
import StagedSandbox.Proofs.Object.Meaning
import StagedSandbox.Tool.Compiler

/-!
# The compiler succeeds on programs that parse

A build of a source that parses leaves the object file of the program and nothing else. Both
builds of a program, plain and release, mean what the program means.
-/

namespace StagedSandbox

open StagedSandbox.Action Guest

variable {g : Guest} {fd : Nat} {path : Path}

theorem Native.attempt_eq {α : Type} {action : Guest.Action α} {a : α} {g' : Guest}
    (h : action g = .ok a g') : Native.attempt action g = .ok (.ok a) g' := by
  rw [Native.attempt, h]

theorem Native.attempt_of_error {α : Type} {action : Guest.Action α} {g' : Guest} {e : Errno}
    (h : action g = .error e g') : Native.attempt action g = .ok (.error e) g' := by
  rw [Native.attempt, h]

/-- A program that succeeds, and would not after an error, has succeeded in its attempt. -/
theorem Native.ok_of_attempt {α β : Type} {action : Guest.Action α} {f : Except Errno α → Native β}
    {g' : Guest} {b : β} (h : (Native.attempt action >>= f) g = .ok b g')
    (herror : ∀ e t, f (.error e) t ≠ .ok b g') :
    ∃ a t, action g = .ok a t ∧ f (.ok a) t = .ok b g' := by
  cases hrun : action g with
  | ok a t =>
    rw [run_bind_of_ok (attempt_eq hrun)] at h
    exact ⟨a, t, rfl, h⟩
  | error e t =>
    rw [run_bind_of_ok (attempt_of_error hrun)] at h
    exact absurd h (herror e t)

theorem Native.run_eq {program : Native Unit} {g' : Guest} (h : program g = .ok () g') :
    program.run g = (.exited 0, g') := by
  rw [Native.run, h]

theorem Tool.arguments_eq (g : Guest) : Tool.arguments g = .ok (g.arguments.drop 1) g := rfl

namespace Tool.Compiler

/-! ### Steps of a build -/

theorem readText_eq {name text : String} (hreach : g.Reaches name path) (hfree : g.Free fd)
    (hfile : g.fs.lookup path = some (.file (Bytes.ofText text)))
    (hsize : (Bytes.ofText text).size < UInt64.size) : readText name g = .ok text g := by
  rw [readText, run_bind_of_ok (Native.attempt_eq (readFile_eq hreach hfree hfile hsize))]
  simp only [Bytes.text?_ofText]
  rfl

theorem writeText_eq {name text : String} (hreach : g.Reaches name path) (hfree : g.Free fd)
    (haccepts : g.fs.Accepts path) (hsize : (Bytes.ofText text).size ≤ Fs.maxFileSize) :
    ∃ fs, g.fs.Replaced path (some (.file (Bytes.ofText text))) fs ∧
      writeText name text g = .ok () { g with fs } := by
  obtain ⟨fs, hfs, hwrite⟩ := writeFile_eq hreach hfree haccepts hsize
  refine ⟨fs, hfs, ?_⟩
  rw [writeText, run_bind_of_ok (Native.attempt_eq hwrite)]
  rfl

theorem orComplain_ok {α : Type} (a : α) : orComplain (.ok a) = pure a := rfl

/-! ### A build -/

/-- A build whose source parses and whose object file can be written succeeds. -/
theorem build_eq {arguments : List String} {b : Build} {source text : String}
    {lines : List Source.Line} {sourcePath objectPath : Path}
    (hparse : Build.parse {} arguments = .ok b) (hsource : b.source = some source)
    (hcross : b.crossCompile = true) (htarget : b.target = none)
    (hprelude : b.prelude = some "empty")
    (hreach : g.Reaches source sourcePath) (hfree : g.Free fd)
    (hfile : g.fs.lookup sourcePath = some (.file (Bytes.ofText text)))
    (hsize : (Bytes.ofText text).size < UInt64.size) (hread : Source.read text = .ok lines)
    (hreachObject : g.Reaches (b.objectPath source) objectPath)
    (haccepts : g.fs.Accepts objectPath)
    (hobject : (Bytes.ofText (compile source lines b.release).render).size ≤ Fs.maxFileSize) :
    ∃ fs, g.fs.Replaced objectPath
        (some (.file (Bytes.ofText (compile source lines b.release).render))) fs ∧
      build arguments g = .ok () { g with fs } := by
  obtain ⟨fs, hfs, hwrite⟩ := writeText_eq hreachObject hfree haccepts hobject
  refine ⟨fs, hfs, ?_⟩
  have hcheck : checkPrelude (b.prelude.getD "prelude") = pure () := by
    rw [hprelude]
    rfl
  rw [build, hparse, orComplain_ok, pure_bind]
  simp only [hsource, hcross, htarget, hcheck, Bool.not_true, Bool.false_eq_true, if_false,
    pure_bind]
  rw [run_bind_of_ok (readText_eq hreach hfree hfile hsize), hread]
  exact hwrite

theorem program_build {arguments : List String} (h : g.arguments.drop 1 = "build" :: arguments) :
    program g = build arguments g := by
  rw [program, run_bind_of_ok (arguments_eq g), h]
  rfl

end Tool.Compiler

end StagedSandbox
