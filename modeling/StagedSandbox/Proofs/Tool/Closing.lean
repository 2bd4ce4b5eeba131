import StagedSandbox.Proofs.Tool.Outcome

/-!
# Descriptors of tools

What a tool has written to a file it reads back from it. Reading a file gives its descriptor back
whatever happens. Writing a file does so too, with one exception: data that is larger than any
file may be is refused once the file is open, and then the descriptor stays open
(`Tool.file_helpers`).
-/

namespace StagedSandbox

open StagedSandbox.Action

namespace Guest

variable {g g' : Guest} {fd : Nat}

/-- There is a number for a descriptor, and a file can be put where a path as text leads to. -/
def CanPut (g : Guest) (name : String) : Prop :=
  ∃ path fd, g.Reaches name path ∧ g.fs.Accepts path ∧ g.Free fd

/-- A file that cannot be opened has no descriptor. -/
theorem descriptors_of_openPath_error {dirFd : Nat} {below : String} {flags : OpenFlags}
    {e : Errno} (h : openPath dirFd below flags g = .error e g') :
    g'.descriptors = g.descriptors := by
  obtain ⟨rfl, -⟩ | ⟨-, -, path, scope, fs, -, -, rfl⟩ := fails_openPath dirFd below flags g e g' h
  · rfl
  · rfl

/-- Data that no file can hold is refused, and the descriptor stays where it is. -/
theorem write_opened_tooLarge {path : Path} {data : Bytes} (h : Fs.maxFileSize < data.size) :
    write fd data (g.opened fd (.file path 0 false)) =
      .error .fbig (g.opened fd (.file path 0 false)) := by
  have hrefused : onFs (Fs.writeAt path (0 : UInt64).toNat data)
      (g.opened fd (.file path 0 false)) =
        .error .fbig (g.opened fd (.file path 0 false)) := by
    have hsize : ¬ (0 : UInt64).toNat + data.size ≤ Fs.maxFileSize := by
      rw [show (0 : UInt64).toNat = 0 from rfl]
      omega
    rw [onFs, Fs.writeAt, Fs.checkSize, if_neg hsize]
    rfl
  rw [write, run_bind_of_ok (descriptor_eq (get?_opened g fd _))]
  simp only [Bool.false_eq_true, if_false, pure_bind]
  rw [run_bind_of_error hrefused]

end Guest

namespace Tool

open Guest

variable {g : Guest} {name : String} {data : Bytes}

/-- Open the file at an absolute path for new content. -/
def openNew (name : String) : Guest.Action Nat := do
  let (dirFd, rest) ← target name
  openPath dirFd rest { create := true, truncate := true, write := true }

/-- Data that no file can hold is refused when the file is open, whatever the data is. -/
theorem writeFile_of_tooLarge (h : Fs.maxFileSize < data.size) :
    writeFile name data g =
      match openNew name g with
      | .ok _ g' => .error .fbig g'
      | .error e g' => .error e g' := by
  obtain ⟨⟨dirFd, below⟩, htarget⟩ | ⟨e, htarget⟩ := (asks_target name).ok_or_error g
  · rw [writeFile, openNew, run_bind_of_ok htarget, run_bind_of_ok htarget]
    simp only
    cases hopen : openPath dirFd below { create := true, truncate := true, write := true } g with
    | error e g' => rw [run_bind_of_error hopen]
    | ok fd g' =>
      obtain ⟨path, scope, hlocate, ⟨found, hreach, hfound⟩, hfree⟩ := accepts_of_openPath hopen
      obtain ⟨fs, -, hopened⟩ := openPath_write hlocate hreach hfound hfree
      obtain ⟨-, rfl⟩ := EStateM.Result.ok.inj (hopen.symm.trans hopened)
      have hne : data.size ≠ 0 := by omega
      rw [run_bind_of_ok hopen, writeChunks_zero, if_neg hne, bind_assoc,
        run_bind_of_error (write_opened_tooLarge h)]
  · rw [writeFile, openNew, run_bind_of_error htarget, run_bind_of_error htarget]

/-- Data that no file can hold is refused when the file has been made or emptied, and has a
descriptor. -/
theorem writeFile_tooLarge {path : Path} {fd : Nat} (hreach : g.Reaches name path)
    (haccepts : g.fs.Accepts path) (hfree : g.Free fd) (h : Fs.maxFileSize < data.size) :
    ∃ fs, g.fs.Replaced path (some (.file ByteArray.empty)) fs ∧
      writeFile name data g =
        .error .fbig (Guest.opened { g with fs } fd (.file path 0 false)) := by
  obtain ⟨dirFd, below, scope, htarget, hlocate⟩ := hreach
  obtain ⟨found, hfound, hfile⟩ := haccepts
  obtain ⟨fs, hfs, hopen⟩ := openPath_write hlocate hfound hfile hfree
  refine ⟨fs, hfs, ?_⟩
  rw [writeFile_of_tooLarge h, openNew, run_bind_of_ok htarget]
  simp only [hopen]

/-- A file that cannot be put anywhere is not opened. -/
theorem writeFile_cases_of_not_canPut (h : ¬ g.CanPut name) :
    ∃ e g', writeFile name data g = .error e g' ∧ g'.descriptors = g.descriptors := by
  obtain ⟨⟨dirFd, below⟩, htarget⟩ | ⟨e, htarget⟩ := (asks_target name).ok_or_error g
  · cases hopen : openPath dirFd below { create := true, truncate := true, write := true } g with
    | error e g' =>
      refine ⟨e, g', ?_, descriptors_of_openPath_error hopen⟩
      rw [writeFile, run_bind_of_ok htarget]
      simp only
      rw [run_bind_of_error hopen]
    | ok fd g' =>
      obtain ⟨path, scope, hlocate, haccepts, hfree⟩ := accepts_of_openPath hopen
      exact absurd ⟨path, fd, ⟨dirFd, below, scope, htarget, hlocate⟩, haccepts, hfree⟩ h
  · exact ⟨e, g, by rw [writeFile, run_bind_of_error htarget], rfl⟩

/-- What was written is read back; reading leaves the guest as it was, and writing leaves the
descriptors as they were, whatever the outcome. The one exception is data that no file can hold,
written where a file can be put: the file is left empty, and open at one more descriptor. -/
theorem file_helpers (g : Guest) (name : String) (data : Bytes) :
    (∀ g', writeFile name data g = .ok () g' → readFile name g' = .ok data g') ∧
      left (readFile name) g = g ∧
      (data.size ≤ Fs.maxFileSize ∨ ¬ g.CanPut name →
        (left (writeFile name data) g).descriptors = g.descriptors) ∧
      (Fs.maxFileSize < data.size → ∀ path fd, g.Reaches name path → g.fs.Accepts path →
        g.Free fd → ∃ fs, g.fs.Replaced path (some (.file ByteArray.empty)) fs ∧
          writeFile name data g =
            .error .fbig (Guest.opened { g with fs } fd (.file path 0 false))) := by
  refine ⟨fun g' hwrite => ?_, ?_, fun hcase => ?_, fun hlarge path fd hreach haccepts hfree => ?_⟩
  · exact readFile_of_writeFile hwrite
  · rw [left]
    obtain ⟨data, fd, ⟨hread, -⟩, -⟩ | ⟨e, hread⟩ := readFile_cases g name
    · rw [hread]
    · rw [hread]
  · rw [left]
    by_cases hput : g.CanPut name
    · obtain ⟨path, fd, hreach, haccepts, hfree⟩ := hput
      obtain hsize | hnot := hcase
      · obtain ⟨fs, -, hwrite⟩ := writeFile_eq hreach hfree haccepts hsize
        rw [hwrite]
      · exact absurd ⟨path, fd, hreach, haccepts, hfree⟩ hnot
    · obtain ⟨e, g', hwrite, hsame⟩ := @writeFile_cases_of_not_canPut g name data hput
      rw [hwrite]
      exact hsame
  · exact writeFile_tooLarge hreach haccepts hfree hlarge

/-- A root directory without files, as a program sees it that is shown all of it. -/
def emptyGuest : Guest := start [] {} [] [] [Preopen.root] .zeros

/-- In an empty root directory any file can be put. -/
theorem canPut_emptyGuest :
    emptyGuest.Reaches "/a" ["a"] ∧ emptyGuest.fs.Accepts ["a"] ∧ emptyGuest.Free 4 :=
  ⟨reaches_root rfl (by decide), ⟨none, rfl, nofun⟩, free_root rfl⟩

/-- One byte more than any file may have. -/
theorem maxFileSize_lt_size : Fs.maxFileSize < (Bytes.zeros (Fs.maxFileSize + 1)).size := by
  rw [Bytes.size_zeros]
  exact Nat.lt_succ_self _

/-- More than one chunk is written and read back; more than a file can hold is not. -/
theorem file_helpers_emptyGuest :
    (∃ g', writeFile "/a" (Bytes.zeros 5000) emptyGuest = .ok () g' ∧
      readFile "/a" g' = .ok (Bytes.zeros 5000) g' ∧ g'.descriptors = emptyGuest.descriptors) ∧
    ∃ fs, writeFile "/a" (Bytes.zeros (Fs.maxFileSize + 1)) emptyGuest =
      .error .fbig (Guest.opened { emptyGuest with fs } 4 (.file ["a"] 0 false)) := by
  obtain ⟨hreach, haccepts, hfree⟩ := canPut_emptyGuest
  have hsmall : (Bytes.zeros 5000).size ≤ Fs.maxFileSize := by
    rw [Bytes.size_zeros]
    decide
  obtain ⟨fs, -, hwrite⟩ := writeFile_eq hreach hfree haccepts hsmall
  obtain ⟨hread, -, hsame, -⟩ := file_helpers emptyGuest "/a" (Bytes.zeros 5000)
  have hkept := hsame (.inl hsmall)
  rw [left, hwrite] at hkept
  obtain ⟨-, -, -, hleak⟩ := file_helpers emptyGuest "/a" (Bytes.zeros (Fs.maxFileSize + 1))
  obtain ⟨fs', -, hrefused⟩ := hleak maxFileSize_lt_size ["a"] 4 hreach haccepts hfree
  exact ⟨⟨_, hwrite, hread _ hwrite, hkept⟩, fs', hrefused⟩

/-- A descriptor that was free is taken after a file was refused that is too large. -/
theorem writeFile_leaves_open :
    emptyGuest.descriptors.get? 4 = none ∧
      ∃ g', writeFile "/a" (Bytes.zeros (Fs.maxFileSize + 1)) emptyGuest = .error .fbig g' ∧
        g'.descriptors.get? 4 = some (.file ["a"] 0 false) ∧
        g'.descriptors ≠ emptyGuest.descriptors := by
  obtain ⟨hreach, haccepts, hfree⟩ := canPut_emptyGuest
  obtain ⟨fs, -, hrefused⟩ := writeFile_tooLarge hreach haccepts hfree maxFileSize_lt_size
  have hopen := get?_opened { emptyGuest with fs } 4 (.file ["a"] 0 false)
  refine ⟨hfree.get?, _, hrefused, hopen, ?_⟩
  intro hsame
  rw [hsame, hfree.get?] at hopen
  cases hopen

end Tool

end StagedSandbox
