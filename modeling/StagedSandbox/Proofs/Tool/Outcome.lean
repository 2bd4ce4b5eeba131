import StagedSandbox.Proofs.Guest.Steps
import StagedSandbox.Proofs.Tool.Written

/-!
# Whatever becomes of files

A tool that reads a file leaves everything as it was, whether it gets the content or not
(`Tool.readFile_cases`). One that writes a file, for which there is a descriptor and which is not
too large, leaves the data there, or it fails before it has changed anything
(`Tool.writeFile_cases`).
-/

namespace StagedSandbox

open StagedSandbox.Action

namespace Guest

variable {g : Guest} {fd : Nat}

/-! ### Opening -/

theorem allocate_cases (g : Guest) (d : Descriptor) :
    (∃ fd, g.Free fd ∧ allocate d g = .ok fd (g.opened fd d)) ∨ ∃ e, allocate d g = .error e g := by
  cases hrun : allocate d g with
  | ok fd g' =>
    have hfree := free_of_allocate hrun
    exact Or.inl ⟨fd, hfree, hrun.symm.trans (allocate_eq hfree d)⟩
  | error e g' =>
    obtain ⟨rfl, -⟩ := allocate_error hrun
    exact Or.inr ⟨e, rfl⟩

/-- What a file or a directory is opened as. -/
def openedAs (node : Node) (path scope : Path) : Descriptor :=
  if node.isDir then .dir path scope else .file path 0 false

/-- What is opened without flags is there, and it stays as it is. -/
theorem openPath_read_cases (g : Guest) (dirFd : Nat) (below : String) :
    (∃ path scope node fd, locate dirFd below g = .ok (path, scope) g ∧
      g.fs.lookup path = some node ∧ g.Free fd ∧
      openPath dirFd below {} g = .ok fd (g.opened fd (openedAs node path scope))) ∨
    ∃ e, openPath dirFd below {} g = .error e g := by
  obtain ⟨⟨path, scope⟩, hlocate⟩ | ⟨e, hlocate⟩ := (asks_locate dirFd below).ok_or_error g
  · rw [openPath, run_bind_of_ok hlocate]
    simp only [run_bind, run_get]
    cases hstat : g.fs.stat path with
    | error e => cases e <;> exact Or.inr ⟨_, rfl⟩
    | ok found =>
      obtain ⟨node, hnode, rfl⟩ := Fs.stat_eq_ok_iff.1 hstat
      obtain ⟨fd, hfree, hrun⟩ | ⟨e, hrun⟩ := allocate_cases g (openedAs node path scope)
      · refine Or.inl ⟨path, scope, node, fd, hlocate, hnode, hfree, ?_⟩
        rw [← hrun]
        cases node <;> rfl
      · refine Or.inr ⟨e, ?_⟩
        rw [← hrun]
        cases node <;> rfl
  · exact Or.inr ⟨e, by rw [openPath, run_bind_of_error hlocate]⟩

/-- If a number is free, a file that cannot be opened for writing has not been touched. -/
theorem openPath_write_error (hfree : g.Free fd) {dirFd : Nat} {below : String}
    {flags : OpenFlags} {e : Errno} {g' : Guest}
    (h : openPath dirFd below flags g = .error e g') : g' = g := by
  obtain ⟨hg, -⟩ | ⟨-, hfull, -⟩ := fails_openPath dirFd below flags g e g' h
  · exact hg
  · have htaken := hfull fd hfree.three_le hfree.word
    rw [id, Table.contains, hfree.get?] at htaken
    cases htaken

/-- A file is found under a name, and a tool reads this data from it: its content, as long as
positions in it fit words of 64 bits. -/
def Yields (g : Guest) (name : String) (data : Bytes) : Prop :=
  Tool.readFile name g = .ok data g ∧ ∃ path content, g.Reaches name path ∧
    g.fs.lookup path = some (.file content) ∧ (content.size < UInt64.size → content = data)

end Guest

namespace Tool

open Guest

variable {g : Guest} {fd : Nat}

/-! ### Reading -/

/-- An open file can be read, however large it is. -/
theorem exists_readChunks {path : Path} {content : Bytes} (hfile : g.fs.read path = .ok content)
    (fd : Nat) (soFar : Bytes) (offset : UInt64) (append : Bool) :
    ∃ data offset', readChunks fd soFar (g.opened fd (.file path offset append)) =
      .ok data (g.opened fd (.file path offset' append)) := by
  induction hleft : content.size - offset.toNat using Nat.strong_induction_on
    generalizing soFar offset with
  | _ left ih =>
    rw [readChunks_step hfile]
    split
    · exact ⟨soFar, _, rfl⟩
    · split
      · next hless => exact ih _ (hleft ▸ hless) _ _ rfl
      · exact ⟨_, _, rfl⟩

/-- Nothing is read from a directory. -/
theorem readChunks_dir (g : Guest) (fd : Nat) (path scope : Path) (soFar : Bytes) :
    readChunks fd soFar (g.opened fd (.dir path scope)) =
      .error .isdir (g.opened fd (.dir path scope)) := by
  have hread : Guest.read fd chunkSize (g.opened fd (.dir path scope)) =
      .error .isdir (g.opened fd (.dir path scope)) := by
    rw [Guest.read, run_bind_of_ok (descriptor_eq (get?_opened g fd _))]
    rfl
  rw [readChunks, hread]

/-- Reading a file changes nothing, also if it fails. It takes a descriptor for a while. -/
theorem readFile_cases (g : Guest) (name : String) :
    (∃ data fd, g.Yields name data ∧ g.Free fd) ∨ ∃ e, readFile name g = .error e g := by
  obtain ⟨⟨dirFd, below⟩, htarget⟩ | ⟨e, htarget⟩ := (asks_target name).ok_or_error g
  · rw [readFile, run_bind_of_ok htarget]
    obtain ⟨path, scope, node, fd, hlocate, hnode, hfree, hopen⟩ | ⟨e, hopen⟩ :=
      openPath_read_cases g dirFd below
    · cases node with
      | dir children =>
        refine Or.inr ⟨.isdir, ?_⟩
        simp only
        rw [run_bind_of_ok hopen, closing]
        simp only [openedAs, Node.isDir, if_true, readChunks_dir, close_opened hfree]
      | file content =>
        obtain ⟨data, offset, hchunks⟩ := exists_readChunks (Fs.read_of_lookup hnode) fd
          ByteArray.empty 0 false
        have hread : readFile name g = .ok data g := by
          rw [readFile, run_bind_of_ok htarget]
          simp only
          rw [run_bind_of_ok hopen, closing]
          simp only [openedAs, Node.isDir, Bool.false_eq_true, if_false, hchunks,
            close_opened hfree]
        have hreach : g.Reaches name path := ⟨dirFd, below, scope, htarget, hlocate⟩
        refine Or.inl ⟨data, fd, ⟨hread, path, content, hreach, hnode, fun hsmall => ?_⟩, hfree⟩
        have hwhole := readFile_eq hreach hfree hnode hsmall
        exact (EStateM.Result.ok.inj (hwhole.symm.trans hread)).1
    · refine Or.inr ⟨e, ?_⟩
      simp only
      rw [run_bind_of_error hopen]
  · exact Or.inr ⟨e, by rw [readFile, run_bind_of_error htarget]⟩

/-- What is read is found in a file, and reading it changes nothing. -/
theorem yields_of_readFile {g' : Guest} {name : String} {data : Bytes}
    (h : readFile name g = .ok data g') : g' = g ∧ g.Yields name data := by
  obtain ⟨found, fd, hyields, -⟩ | ⟨e, hrun⟩ := readFile_cases g name
  · obtain ⟨rfl, rfl⟩ := EStateM.Result.ok.inj (h.symm.trans hyields.1)
    exact ⟨rfl, hyields⟩
  · cases h.symm.trans hrun

/-! ### Writing -/

/-- With a descriptor to spare, data that is not too large is left at the path, or nothing has
happened. -/
theorem writeFile_cases (hfree : g.Free fd) {data : Bytes} (hsize : data.size ≤ Fs.maxFileSize)
    (name : String) :
    (∃ path fs, g.Reaches name path ∧ g.fs.Accepts path ∧
      g.fs.Replaced path (some (.file data)) fs ∧ writeFile name data g = .ok () { g with fs }) ∨
    ∃ e, writeFile name data g = .error e g := by
  obtain ⟨⟨dirFd, below⟩, htarget⟩ | ⟨e, htarget⟩ := (asks_target name).ok_or_error g
  · cases hopen : openPath dirFd below { create := true, truncate := true, write := true } g with
    | error e g' =>
      obtain rfl := openPath_write_error hfree hopen
      refine Or.inr ⟨e, ?_⟩
      rw [writeFile, run_bind_of_ok htarget]
      simp only
      rw [run_bind_of_error hopen]
    | ok fd' g' =>
      obtain ⟨path, scope, hlocate, haccepts, -⟩ := accepts_of_openPath hopen
      have hreach : g.Reaches name path := ⟨dirFd, below, scope, htarget, hlocate⟩
      obtain ⟨fs, hfs, hwrite⟩ := writeFile_eq hreach hfree haccepts hsize
      exact Or.inl ⟨path, fs, hreach, haccepts, hfs, hwrite⟩
  · exact Or.inr ⟨e, by rw [writeFile, run_bind_of_error htarget]⟩

end Tool

end StagedSandbox
