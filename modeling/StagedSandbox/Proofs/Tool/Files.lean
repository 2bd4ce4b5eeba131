import StagedSandbox.Proofs.Guest.Files
import StagedSandbox.Tool.Basic

/-!
# Files of tools

A tool that reads a file gets its whole content, however many chunks that takes, and a tool that
writes one leaves exactly the data there. Either way its descriptors are afterwards what they were
before.
-/

namespace StagedSandbox

namespace Fs

variable {fs fs' fs'' : Fs} {path : Path}

/-- Of two replacements of a file the later one counts. -/
theorem Replaced.trans {content : Bytes} {new : Option Node}
    (h : fs.Replaced path (some (.file content)) fs') (h' : fs'.Replaced path new fs'') :
    fs.Replaced path new fs'' where
  here := h'.here
  beside other hother := by rw [h'.beside other hother, h.beside other hother]
  wellFormed hfs hpath hnew := by
    refine h'.wellFormed (h.wellFormed hfs hpath fun node hnode => ?_) hpath hnew
    obtain rfl := Option.some.inj hnode
    exact .file content

/-- A file can be put at a path: one stands there, or nothing, in a directory that can be
reached. -/
def Accepts (fs : Fs) (path : Path) : Prop :=
  ∃ found, fs.reach path = .ok found ∧ ∀ children, found ≠ some (.dir children)

/-- In the root everything but a directory can be replaced by a file. -/
theorem accepts_singleton {name : String} (h : fs.view [name] ≠ some .dir) :
    fs.Accepts [name] := by
  refine ⟨_, @reach_concat_of_dir fs [] fs rfl name, ?_⟩
  rintro children heq
  exact h (by rw [view_singleton, heq]; rfl)

end Fs

namespace Tool

open StagedSandbox.Action Guest

variable {g : Guest} {fd : Nat} {path : Path} {content : Bytes}

/-! ### Reading -/

theorem bytesLeft_opened (hfile : g.fs.read path = .ok content) (fd : Nat) (offset : UInt64)
    (append : Bool) :
    bytesLeft fd (g.opened fd (.file path offset append)) = content.size - offset.toNat := by
  rw [bytesLeft, get?_opened]
  simp only [show (g.opened fd (.file path offset append)).fs.read path = .ok content from hfile]

/-- One step of reading an open file: it ends where no bytes are left. -/
theorem readChunks_step (hfile : g.fs.read path = .ok content) (fd : Nat) (soFar : Bytes)
    (offset : UInt64) (append : Bool) :
    let data := content.slice offset.toNat chunkSize
    let next := offset + UInt64.ofNat data.size
    readChunks fd soFar (g.opened fd (.file path offset append)) =
      if data.size = 0 then .ok soFar (g.opened fd (.file path next append))
      else if content.size - next.toNat < content.size - offset.toNat then
        readChunks fd (soFar ++ data) (g.opened fd (.file path next append))
      else .ok (soFar ++ data) (g.opened fd (.file path next append)) := by
  intro data next
  rw [readChunks, read_opened hfile fd offset append chunkSize]
  simp only [bytesLeft_opened hfile]
  rfl

/-- The offset does not begin anew in a file whose length fits a word. -/
theorem toNat_add_size_slice (hsize : content.size < UInt64.size) (offset : UInt64) (length : Nat) :
    (offset + UInt64.ofNat (content.slice offset.toNat length).size).toNat =
      offset.toNat + (content.slice offset.toNat length).size := by
  have hslice : (content.slice offset.toNat length).size =
      min length (content.size - offset.toNat) := Bytes.size_slice _ _ _
  have hoffset : offset.toNat < UInt64.size := offset.toNat_lt_size
  have hwordSize : UInt64.size = 2 ^ 64 := rfl
  rw [UInt64.toNat_add, UInt64.toNat_ofNat', Nat.add_mod_mod]
  exact Nat.mod_eq_of_lt (by omega)

/-- Reading in chunks gives all that follows the offset. -/
theorem readChunks_opened (hfile : g.fs.read path = .ok content)
    (hsize : content.size < UInt64.size) (fd : Nat) (soFar : Bytes) (offset : UInt64)
    (append : Bool) :
    ∃ offset', readChunks fd soFar (g.opened fd (.file path offset append)) =
      .ok (soFar ++ content.slice offset.toNat content.size)
        (g.opened fd (.file path offset' append)) := by
  induction hleft : content.size - offset.toNat using Nat.strong_induction_on
    generalizing soFar offset with
  | _ left ih =>
    have hchunk : (content.slice offset.toNat chunkSize).size =
        min chunkSize (content.size - offset.toNat) := Bytes.size_slice _ _ _
    have hchunkSize : chunkSize = 4096 := rfl
    have hoffset := toNat_add_size_slice hsize offset chunkSize
    rw [readChunks_step hfile]
    split
    · next hempty =>
      refine ⟨offset + UInt64.ofNat (content.slice offset.toNat chunkSize).size, ?_⟩
      rw [Bytes.slice_of_size_le (by omega) content.size, ByteArray.append_empty]
    · next hne =>
      rw [if_pos (by omega)]
      obtain ⟨offset', hrest⟩ := ih _ (by omega) (soFar ++ content.slice offset.toNat chunkSize)
        (offset + UInt64.ofNat (content.slice offset.toNat chunkSize).size) rfl
      refine ⟨offset', ?_⟩
      rw [hrest, hoffset, ByteArray.append_assoc, Bytes.slice_append_slice]

/-- A tool reads the whole content of a file. -/
theorem readFile_eq {text : String} (hreach : g.Reaches text path) (hfree : g.Free fd)
    (hfile : g.fs.lookup path = some (.file content)) (hsize : content.size < UInt64.size) :
    readFile text g = .ok content g := by
  obtain ⟨dirFd, below, scope, htarget, hlocate⟩ := hreach
  obtain ⟨offset, hchunks⟩ := readChunks_opened (Fs.read_of_lookup hfile) hsize fd
    ByteArray.empty 0 false
  have hzero : (0 : UInt64).toNat = 0 := rfl
  rw [hzero, Bytes.slice_zero_size, ByteArray.empty_append] at hchunks
  rw [readFile, run_bind_of_ok htarget]
  simp only
  rw [run_bind_of_ok (openPath_file hlocate (Fs.find_eq_ok_iff.2 hfile) hfree), closing, hchunks]
  simp only [close_opened hfree]

/-! ### Writing -/

/-- All of the data is written in one step. -/
theorem writeChunks_zero (fd : Nat) (data : Bytes) :
    writeChunks fd data 0 =
      if data.size = 0 then pure () else write fd data >>= fun _ => pure () := by
  have hwhole : data.extract 0 data.size = data := ByteArray.extract_zero_size
  funext g
  rw [writeChunks]
  by_cases hempty : data.size = 0
  · rw [dif_neg (by omega), if_pos hempty]
    rfl
  · rw [dif_pos (Nat.pos_of_ne_zero hempty), if_neg hempty]
    split
    · next e g' hwrite =>
      rw [hwhole] at hwrite
      exact (run_bind_of_error hwrite _).symm
    · next n g' hwrite =>
      rw [hwhole] at hwrite
      rw [run_bind_of_ok hwrite, eq_size_of_write hwrite, writeChunks, dif_neg (by omega)]
      rfl

/-- A tool leaves the data it writes at the path. -/
theorem writeFile_eq {text : String} (hreach : g.Reaches text path) (hfree : g.Free fd)
    (haccepts : g.fs.Accepts path) (hsize : content.size ≤ Fs.maxFileSize) :
    ∃ fs, g.fs.Replaced path (some (.file content)) fs ∧
      writeFile text content g = .ok () { g with fs } := by
  obtain ⟨dirFd, below, scope, htarget, hlocate⟩ := hreach
  obtain ⟨found, hreach, hfound⟩ := haccepts
  obtain ⟨opened, hopened, hopen⟩ := openPath_write hlocate hreach hfound hfree
  by_cases hempty : content.size = 0
  · obtain rfl : content = ByteArray.empty := ByteArray.size_eq_zero_iff.1 hempty
    refine ⟨opened, hopened, ?_⟩
    rw [writeFile, run_bind_of_ok htarget]
    simp only
    rw [run_bind_of_ok hopen, writeChunks_zero, if_pos hempty]
    exact close_opened (hfree.with_fs opened) _
  · have hwriteAt := Fs.follows_writeAt path 0 content opened
    have hne : path ≠ [] := by
      rintro rfl
      simp at hreach
    simp only [Fs.reach_of_lookup hne hopened.here, Nat.zero_add, hsize, if_true] at hwriteAt
    obtain ⟨fs, hwriteAt, hfs⟩ := hwriteAt
    have hfs : opened.Replaced path
        (some (.file (Bytes.overlay ByteArray.empty 0 content))) fs := hfs
    rw [Bytes.overlay_empty] at hfs
    refine ⟨fs, hopened.trans hfs, ?_⟩
    rw [writeFile, run_bind_of_ok htarget]
    simp only
    rw [run_bind_of_ok hopen, writeChunks_zero, if_neg hempty, bind_assoc,
      run_bind_of_ok (write_opened (g := { g with fs := opened }) hwriteAt fd)]
    exact close_opened (hfree.with_fs fs) _

end Tool

end StagedSandbox
