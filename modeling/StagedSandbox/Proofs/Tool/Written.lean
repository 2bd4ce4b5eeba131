import StagedSandbox.Proofs.Guest.Failure
import StagedSandbox.Proofs.Object.Header
import StagedSandbox.Proofs.Tool.Compiler

/-!
# What tools have written

A tool that has written a file has left exactly its data at the path, and a build that has
succeeded has left the object file of a program that parses. The linker reads from it the
operations that the program was compiled to, unless the path of the source holds line breaks:
then the lines after the first one count as well (`Tool.Compiler.parse?_of_build`).
-/

namespace StagedSandbox

open StagedSandbox.Action

namespace Guest

variable {g g' : Guest} {fd : Nat}

/-! ### Opened for writing -/

/-- A file that was opened for writing could be put where its path leads to. -/
theorem accepts_of_openPath {dirFd : Nat} {below : String}
    (h : openPath dirFd below { create := true, truncate := true, write := true } g = .ok fd g') :
    ∃ path scope, locate dirFd below g = .ok (path, scope) g ∧ g.fs.Accepts path ∧ g.Free fd := by
  obtain ⟨⟨path, scope⟩, t, hlocate, -⟩ := exists_of_bind h
  obtain rfl : t = g := (asks_locate dirFd below).of_ok hlocate
  refine ⟨path, scope, hlocate, ?_⟩
  cases hfind : t.fs.find path with
  | ok node =>
    rw [Fs.find_eq_ok_iff] at hfind
    cases node with
    | dir children =>
      rw [openPath_of_dir hlocate hfind] at h
      cases h
    | file content =>
      rw [openPath_of_file hlocate hfind] at h
      obtain ⟨_, between, hcut, hopened⟩ := exists_of_bind h
      obtain ⟨fs, -, rfl⟩ := onFs_ok hcut
      have hne : path ≠ [] := by
        rintro rfl
        cases hfind
      exact ⟨⟨_, Fs.reach_of_lookup hne hfind, by simp⟩, (free_of_allocate hopened).with_fs t.fs⟩
  | error e =>
    rw [openPath_of_error hlocate hfind] at h
    split at h
    · obtain ⟨_, between, hmade, hopened⟩ := exists_of_bind h
      obtain ⟨fs, hwrite, rfl⟩ := onFs_ok hmade
      refine ⟨?_, (free_of_allocate hopened).with_fs t.fs⟩
      have hfollows := Fs.follows_write path ByteArray.empty .overwrite t.fs
      cases hreach : t.fs.reach path with
      | error e => simp [hreach, Except.bind, hwrite] at hfollows
      | ok found =>
        refine ⟨found, hreach, ?_⟩
        rintro children rfl
        simp [hreach, Except.bind, Fs.Decide.write, hwrite] at hfollows
    · cases h

/-- What a path leads to does not depend on what stands there. -/
theorem Reaches.with_fs {text : String} {path : Path} (h : g.Reaches text path) (fs : Fs) :
    ({ g with fs } : Guest).Reaches text path := by
  obtain ⟨dirFd, below, scope, htarget, hlocate⟩ := h
  refine ⟨dirFd, below, scope, ?_, ?_⟩
  · have hresolve : ({ g with fs } : Guest).resolve text = g.resolve text := rfl
    rw [target] at htarget ⊢
    rw [hresolve]
    cases hfound : g.resolve text with
    | ok found =>
      rw [hfound] at htarget
      rw [(EStateM.Result.ok.inj htarget).1]
    | error e => simp [hfound] at htarget
  · obtain ⟨found, t, hdirectory, hscope⟩ := exists_of_bind hlocate
    obtain ⟨d, t', hdescriptor, hfound⟩ := exists_of_bind hdirectory
    have hfd := get?_of_descriptor hdescriptor
    obtain rfl := (asks_descriptor dirFd).of_ok hdescriptor
    obtain rfl := (asks_directory dirFd).of_ok hdirectory
    have hanswer : directory dirFd { t with fs } = .ok found { t with fs } := by
      have hagain : descriptor dirFd { t with fs } = .ok d { t with fs } :=
        descriptor_eq (g := { t with fs }) hfd
      rw [directory, run_bind_of_ok hagain]
      cases d with
      | preopen guest path => rw [← (EStateM.Result.ok.inj hfound).1]; rfl
      | dir path scope => rw [← (EStateM.Result.ok.inj hfound).1]; rfl
      | stdin | stdout | stderr | file => cases hfound
    rw [locate, run_bind_of_ok hanswer]
    dsimp only at hscope ⊢
    split at hscope
    · next hprefix =>
      rw [if_pos hprefix, ← (EStateM.Result.ok.inj hscope).1]
      rfl
    · cases hscope

/-- What is written to an empty file is no more than a file can hold. -/
theorem size_of_write_opened {path : Path} {data : Bytes} {n : Nat}
    (h : write fd data (g.opened fd (.file path 0 false)) = .ok n g') :
    data.size ≤ Fs.maxFileSize := by
  rw [write, run_bind_of_ok (descriptor_eq (get?_opened g fd _))] at h
  simp only [Bool.false_eq_true, if_false, pure_bind] at h
  obtain ⟨_, t, honFs, -⟩ := exists_of_bind h
  obtain ⟨fs, hwrite, -⟩ := onFs_ok honFs
  have hwrite : Fs.writeAt path 0 data g.fs = .ok () fs := hwrite
  have hfollows := Fs.follows_writeAt path 0 data g.fs
  by_contra hlarge
  simp [hlarge, hwrite] at hfollows

end Guest

namespace Tool

variable {g g' : Guest}

/-- A file that was written could be put where its path leads to, and it stands there. -/
theorem writeFile_ok {name : String} {data : Bytes} (h : writeFile name data g = .ok () g') :
    ∃ path fd fs, g.Reaches name path ∧ g.Free fd ∧ data.size ≤ Fs.maxFileSize ∧
      g.fs.Replaced path (some (.file data)) fs ∧ g' = { g with fs } := by
  obtain ⟨⟨dirFd, below⟩, t, htarget, hrest⟩ := exists_of_bind h
  obtain rfl := (Guest.asks_target name).of_ok htarget
  obtain ⟨fd, t', hopen, hwrite⟩ := exists_of_bind hrest
  obtain ⟨path, scope, hlocate, haccepts, hfree⟩ := Guest.accepts_of_openPath hopen
  have hreaches : t.Reaches name path := ⟨dirFd, below, scope, htarget, hlocate⟩
  have hsize : data.size ≤ Fs.maxFileSize := by
    by_contra hlarge
    obtain ⟨found, hreach, hfound⟩ := haccepts
    obtain ⟨fs, -, hopen'⟩ := Guest.openPath_write hlocate hreach hfound hfree
    obtain ⟨-, rfl⟩ := EStateM.Result.ok.inj (hopen.symm.trans hopen')
    have hne : data.size ≠ 0 := by
      intro hempty
      rw [hempty] at hlarge
      exact hlarge (Nat.zero_le _)
    rw [writeChunks_zero, if_neg hne, bind_assoc] at hwrite
    obtain ⟨n, t', hwritten, -⟩ := exists_of_bind hwrite
    exact hlarge (Guest.size_of_write_opened (g := { t with fs }) hwritten)
  obtain ⟨fs, hfs, heq⟩ := writeFile_eq hreaches hfree haccepts hsize
  exact ⟨path, fd, fs, hreaches, hfree, hsize, hfs, (EStateM.Result.ok.inj (h.symm.trans heq)).2⟩

/-- What was written to a file is read back from it. -/
theorem readFile_of_writeFile {name : String} {data : Bytes}
    (h : writeFile name data g = .ok () g') : readFile name g' = .ok data g' := by
  obtain ⟨path, fd, fs, hreaches, hfree, hsize, hfs, rfl⟩ := writeFile_ok h
  exact readFile_eq (hreaches.with_fs fs) (hfree.with_fs fs) hfs.here (hsize.trans_lt (by decide))

namespace Compiler

theorem fail_ne_ok {α : Type} (message : String) (a : α) :
    (fail message : Native α) g ≠ .ok a g' := by
  intro h
  obtain ⟨_, t, -, hthrow⟩ := exists_of_bind h
  cases hthrow

theorem orComplain_eq_ok {α : Type} {result : Except Complaint α} {a : α}
    (h : orComplain result g = .ok a g') : result = .ok a ∧ g' = g := by
  cases result with
  | ok a' =>
    obtain ⟨rfl, rfl⟩ := EStateM.Result.ok.inj h
    exact ⟨rfl, rfl⟩
  | error c => exact absurd h (fail_ne_ok c.message a)

theorem writeText_ok {name text : String} (h : writeText name text g = .ok () g') :
    writeFile name (Bytes.ofText text) g = .ok () g' := by
  obtain ⟨_, t, hwrite, hrest⟩ := Native.ok_of_attempt h fun e t => fail_ne_ok _ ()
  obtain ⟨-, rfl⟩ := EStateM.Result.ok.inj hrest
  exact hwrite

theorem fileExists_ok {path : String} {found : Bool} (h : fileExists path g = .ok found g') :
    g' = g := by
  obtain ⟨outcome, t, hattempt, hrest⟩ := exists_of_bind h
  obtain ⟨-, rfl⟩ := EStateM.Result.ok.inj hrest
  have hask : Guest.Asks (Guest.target path >>= fun found => Guest.pathStatus found.1 found.2) :=
    (Guest.asks_target path).bind fun found => Guest.asks_pathStatus found.1 found.2
  rw [Native.attempt] at hattempt
  split at hattempt
  · next hstatus =>
    obtain ⟨-, rfl⟩ := EStateM.Result.ok.inj hattempt
    exact hask.keeps.of_ok hstatus
  · next hstatus =>
    obtain ⟨-, rfl⟩ := EStateM.Result.ok.inj hattempt
    exact hask.keeps.of_error hstatus

theorem findPrelude_ok {name : String} {directories : List String} {found : Bool}
    (h : findPrelude name directories g = .ok found g') : g' = g := by
  induction directories generalizing g with
  | nil => exact (EStateM.Result.ok.inj h).2.symm
  | cons directory rest ih =>
    obtain ⟨present, t, hexists, hrest⟩ := exists_of_bind h
    obtain rfl := fileExists_ok hexists
    split at hrest
    · exact (EStateM.Result.ok.inj hrest).2.symm
    · exact ih hrest

/-- Looking for a prelude leaves the guest as it was. -/
theorem checkPrelude_ok {name : String} (h : checkPrelude name g = .ok () g') : g' = g := by
  rw [checkPrelude] at h
  split at h
  · exact (EStateM.Result.ok.inj h).2.symm
  · obtain ⟨directories, t, henvironment, hrest⟩ := exists_of_bind h
    obtain rfl : t = g := (EStateM.Result.ok.inj henvironment).2.symm
    obtain ⟨found, t', hfind, hfound⟩ := exists_of_bind hrest
    obtain rfl := findPrelude_ok hfind
    split at hfound
    · exact (EStateM.Result.ok.inj hfound).2.symm
    · exact absurd hfound (fail_ne_ok _ ())

/-- The last steps of a build. -/
def finishBuild (b : Build) (source : String) : Native Unit := do
  checkPrelude (b.prelude.getD "prelude")
  let text ← readText source
  let lines ← orComplain ((Source.read text).mapError (.mistake source))
  writeText (b.objectPath source) (compile source lines b.release).render

theorem finishBuild_ok {b : Build} {source : String} (h : finishBuild b source g = .ok () g') :
    ∃ text lines t, readText source g = .ok text t ∧ Source.read text = .ok lines ∧
      writeText (b.objectPath source) (compile source lines b.release).render t = .ok () g' := by
  obtain ⟨_, t, hprelude, hrest⟩ := exists_of_bind h
  obtain rfl := checkPrelude_ok hprelude
  obtain ⟨text, t', hread, hrest⟩ := exists_of_bind hrest
  obtain ⟨lines, t'', horder, hwrite⟩ := exists_of_bind hrest
  obtain ⟨hlines, rfl⟩ := orComplain_eq_ok horder
  exact ⟨text, lines, t'', hread, mapError_eq_ok.1 hlines, hwrite⟩

/-- What a build writes can be read by the linker. -/
theorem readFile_of_writeText {name text : String} (h : writeText name text g = .ok () g') :
    readFile name g' = .ok (Bytes.ofText text) g' :=
  readFile_of_writeFile (writeText_ok h)

/-- A build that succeeds comes to its last steps. -/
theorem build_ok {arguments : List String} (h : build arguments g = .ok () g') :
    ∃ b source, Build.parse {} arguments = .ok b ∧ b.source = some source ∧
      finishBuild b source g = .ok () g' := by
  obtain ⟨b, t, horder, hrest⟩ := exists_of_bind h
  obtain ⟨hparse, rfl⟩ := orComplain_eq_ok horder
  cases hsource : b.source with
  | none =>
    simp only [hsource] at hrest
    exact absurd hrest (fail_ne_ok _ ())
  | some source =>
    refine ⟨b, source, hparse, hsource, ?_⟩
    simp only [hsource] at hrest
    cases hcross : b.crossCompile with
    | false =>
      simp only [hcross, Bool.not_false, if_true] at hrest
      obtain ⟨_, t', hcomplain, -⟩ := exists_of_bind hrest
      exact absurd hcomplain (fail_ne_ok _ ())
    | true =>
      simp only [hcross, Bool.not_true, Bool.false_eq_true, if_false] at hrest
      cases htarget : b.target with
      | none =>
        rw [htarget] at hrest
        exact hrest
      | some other =>
        simp only [htarget] at hrest
        by_cases hother : other ≠ target
        · rw [if_pos hother] at hrest
          obtain ⟨_, t', hcomplain, -⟩ := exists_of_bind hrest
          exact absurd hcomplain (fail_ne_ok _ ())
        · rw [if_neg hother] at hrest
          exact hrest

/-- A build that succeeds has left the object file of a program that parses. The linker reads from
it the operations that the program was compiled to if and only if the lines of the source's path
after its first one are blank or comments. -/
theorem parse?_of_build {arguments : List String} (h : build arguments g = .ok () g') :
    ∃ b source text lines t, Build.parse {} arguments = .ok b ∧ b.source = some source ∧
      readText source g = .ok text t ∧ Source.read text = .ok lines ∧
      readFile (b.objectPath source) g' =
        .ok (Bytes.ofText (compile source lines b.release).render) g' ∧
      ∃ read, ObjectFile.parse? (Bytes.ofText (compile source lines b.release).render) =
          some read ∧
        ((∃ header, read = .ok ⟨header, (compile source lines b.release).ops⟩) ↔
          ∀ line ∈ ObjectFile.strayLines source, ObjectFile.IsIdle line) := by
  obtain ⟨b, source, hparse, hsource, hfinish⟩ := build_ok h
  obtain ⟨text, lines, t, hread, hlines, hwrite⟩ := finishBuild_ok hfinish
  exact ⟨b, source, text, lines, t, hparse, hsource, hread, hlines, readFile_of_writeText hwrite,
    ObjectFile.parse?_render_iff source (compile source lines b.release).ops⟩

/-- A path whose second line is a comment does no harm. -/
theorem parse?_of_build_comment :
    let g := Guest.start [("a\n;; b", .file (Bytes.ofText "print 1"))] {} [] [] [Preopen.root]
      .zeros
    let arguments := ["/a\n;; b", "--cross-compile", "--prelude", "empty", "-o", "/o"]
    ∃ g', build arguments g = .ok () g' ∧
      ∃ b source text lines t, Build.parse {} arguments = .ok b ∧ b.source = some source ∧
        readText source g = .ok text t ∧ Source.read text = .ok lines ∧
        readFile (b.objectPath source) g' =
          .ok (Bytes.ofText (compile source lines b.release).render) g' ∧
        ∃ read, ObjectFile.parse? (Bytes.ofText (compile source lines b.release).render) =
            some read ∧
          ((∃ header, read = .ok ⟨header, (compile source lines b.release).ops⟩) ↔
            ∀ line ∈ ObjectFile.strayLines source, ObjectFile.IsIdle line) := by
  intro g arguments
  have hbuilds : (success? (build arguments) g).isSome = true := by decide +kernel
  obtain ⟨⟨_, g'⟩, hsome⟩ := Option.isSome_iff_exists.1 hbuilds
  have h := success?_eq_some_iff.1 hsome
  exact ⟨g', h, parse?_of_build h⟩

/-- A path whose second line is an operation puts that operation in front of the program. -/
theorem build_lineBreak_abort :
    let g := Guest.start [("a\nabort", .file (Bytes.ofText "print 1"))] {} [] [] [Preopen.root]
      .zeros
    let o := compile "/a\nabort" [.statement (.print (.number 1))] false
    ∃ g', build ["/a\nabort", "--cross-compile", "--prelude", "empty", "-o", "/o"] g = .ok () g' ∧
      g'.fs.read ["o"] = .ok (Bytes.ofText o.render) ∧
      ObjectFile.parse? (Bytes.ofText o.render) = some (.ok ⟨some "/a", .abort :: o.ops⟩) := by
  intro g o
  have hbuilds :
      (success? (build ["/a\nabort", "--cross-compile", "--prelude", "empty", "-o", "/o"]) g).any
        (fun built => decide (built.2.fs.read ["o"] = .ok (Bytes.ofText o.render))) = true := by
    decide +kernel
  have hparse : ObjectFile.parse? (Bytes.ofText o.render) =
      some (.ok ⟨some "/a", .abort :: o.ops⟩) := by
    decide +kernel
  obtain ⟨⟨_, g'⟩, hsome, hread⟩ := (Option.any_eq_true ..).1 hbuilds
  exact ⟨g', success?_eq_some_iff.1 hsome, of_decide_eq_true hread, hparse⟩

end Compiler

end Tool

end StagedSandbox
