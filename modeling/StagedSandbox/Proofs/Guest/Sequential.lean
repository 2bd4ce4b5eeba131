import Mathlib.Algebra.GroupWithZero.Nat
import StagedSandbox.Proofs.Guest.Failure
import StagedSandbox.Proofs.Guest.Files

/-!
# Reading and writing in pieces

A file that is open at a descriptor is read and written at the offset of the descriptor, and each
call moves the offset behind what it has transferred. So it does not matter how a transfer is cut
into calls: reads one after the other give the part of the file that one read gives, and writes
that all succeed leave what a single write of all the bytes leaves (`run_in_pieces`).

A descriptor that appends takes the end of the file for its offset at each write. What has been
written before then lies in front of the end, so the offset is the same as without appending.
-/

namespace StagedSandbox.Guest

open StagedSandbox.Action

variable {g g' : Guest} {fd : Nat} {path : Path} {offset : UInt64} {append : Bool}
  {content : Bytes}

/-! ### Open files -/

/-- A descriptor stands for a file that exists, and that a word of 64 bits can measure. -/
structure OpenFile (g : Guest) (fd : Nat) (path : Path) (offset : UInt64) (append : Bool)
    (content : Bytes) : Prop where
  descriptor : g.descriptors.get? fd = some (.file path offset append)
  file : g.fs.lookup path = some (.file content)
  size : content.size < UInt64.size

theorem OpenFile.rebound (h : g.OpenFile fd path offset append content) (offset' : UInt64) :
    (g.rebound fd (.file path offset' append)).OpenFile fd path offset' append content :=
  ⟨get?_rebound h.descriptor _, h.file, h.size⟩

/-- A part of a file ends at an offset that a word can count. -/
theorem OpenFile.toNat_add_slice (h : g.OpenFile fd path offset append content) (length : Nat) :
    (offset + UInt64.ofNat (content.slice offset.toNat length).size).toNat =
      offset.toNat + (content.slice offset.toNat length).size := by
  have hsize : content.size < 2 ^ 64 := h.size
  have hoffset := offset.toNat_lt
  have hslice := Bytes.size_slice content offset.toNat length
  have hword : (content.slice offset.toNat length).size < UInt64.size :=
    Nat.lt_of_le_of_lt (by omega) h.size
  rw [UInt64.toNat_add, UInt64.toNat_ofNat_of_lt' hword, Nat.mod_eq_of_lt (by omega)]

/-! ### Reading -/

theorem OpenFile.read_eq (h : g.OpenFile fd path offset append content) (length : Nat) :
    read fd length g =
      .ok (content.slice offset.toNat length)
        (g.rebound fd (.file path
          (offset + UInt64.ofNat (content.slice offset.toNat length).size) append)) :=
  read_file h.descriptor (Fs.read_of_lookup h.file) length

/-- Reading at a position gives a part of the content as well, and leaves the offset alone. -/
theorem OpenFile.readAt_eq (h : g.OpenFile fd path offset append content) (length start : Nat) :
    readAt fd length start g = .ok (content.slice start length) g := by
  rw [readAt, run_bind_of_ok (descriptor_eq h.descriptor)]
  simp only
  rw [askFs]
  simp only [Fs.readAt, Fs.read_of_lookup h.file]
  rfl

/-- Reads one after the other give the parts of what one read of all their sizes gives. -/
theorem OpenFile.run_reads (h : g.OpenFile fd path offset append content) (sizes : List Nat) :
    ∃ chunks : List Bytes,
      g.run (sizes.map (.read fd)) =
        (chunks.map fun chunk => .ok (.data chunk),
          g.rebound fd (.file path
            (offset + UInt64.ofNat (content.slice offset.toNat sizes.sum).size) append)) ∧
      Bytes.concat chunks = content.slice offset.toNat sizes.sum := by
  induction sizes generalizing g offset with
  | nil =>
    have hself : g.rebound fd (.file path offset append) = g := rebound_self h.descriptor
    exact ⟨[], by simpa [run] using hself.symm, by simp⟩
  | cons length rest ih =>
    have hread : g.call (.read fd length) = (.ok (.data _), _) :=
      call_of_ok .data rfl (h.read_eq length)
    have hmoved := h.rebound (offset + UInt64.ofNat (content.slice offset.toNat length).size)
    obtain ⟨chunks, hrun, hconcat⟩ := ih hmoved
    have hadd := Bytes.slice_add content offset.toNat length rest.sum
    rw [h.toNat_add_slice] at hrun hconcat
    refine ⟨content.slice offset.toNat length :: chunks, ?_, ?_⟩
    · rw [List.map_cons, run, hread]
      simp only [hrun, List.map_cons, rebound_rebound, List.sum_cons, ← hadd, ByteArray.size_append,
        UInt64.ofNat_add, UInt64.add_assoc]
    · rw [Bytes.concat_cons, hconcat, List.sum_cons, hadd]

/-! ### Writing -/

/-- Where the next write begins: at the offset, or at the end of the file. -/
def writeStart (append : Bool) (offset : UInt64) (content : Bytes) : UInt64 :=
  if append then UInt64.ofNat content.size else offset

/-- A write settles where it begins before it lays the bytes over the file. -/
theorem OpenFile.write_eq (h : g.OpenFile fd path offset append content) (data : Bytes) :
    write fd data g =
      writeFrom fd path append data (writeStart append offset content)
        (g.rebound fd (.file path (writeStart append offset content) append)) := by
  rw [write_file h.descriptor]
  cases append with
  | false =>
    rw [writeStart, if_neg Bool.false_ne_true, if_neg Bool.false_ne_true,
      rebound_self h.descriptor]
  | true =>
    have hstat : askFs (·.stat path) g = .ok ⟨false, content.size⟩ g := by
      rw [askFs]
      simp only [Fs.stat_of_lookup h.file]
    rw [writeStart, if_pos rfl, if_pos rfl, writeAtEnd, run_bind_of_ok hstat,
      run_bind_of_ok (setDescriptor_eq ..)]

/-- A write succeeds if the file system takes the bytes, and moves the offset behind them. -/
theorem OpenFile.write_ok_iff (h : g.OpenFile fd path offset append content) {data : Bytes}
    {n : Nat} :
    write fd data g = .ok n g' ↔
      ∃ fs, Fs.writeAt path (writeStart append offset content).toNat data g.fs = .ok () fs ∧
        n = data.size ∧
        g' = Guest.rebound { g with fs } fd
          (.file path (writeStart append offset content + UInt64.ofNat data.size) append) := by
  rw [h.write_eq, writeFrom]
  constructor
  · intro hrun
    obtain ⟨_, t, hwrite, hrun⟩ := exists_of_bind hrun
    obtain ⟨fs, hfs, rfl⟩ := onFs_ok hwrite
    rw [run_bind_of_ok (setDescriptor_eq ..)] at hrun
    obtain ⟨rfl, rfl⟩ := EStateM.Result.ok.inj hrun
    exact ⟨fs, hfs, rfl, rebound_rebound { g with fs } ..⟩
  · rintro ⟨fs, hwrite, rfl, rfl⟩
    have hfs : onFs (Fs.writeAt path (writeStart append offset content).toNat data)
        (g.rebound fd (.file path (writeStart append offset content) append)) =
          .ok () (Guest.rebound { g with fs } fd
            (.file path (writeStart append offset content) append)) := onFs_eq hwrite
    rw [run_bind_of_ok hfs, run_bind_of_ok (setDescriptor_eq ..), rebound_rebound]
    rfl

theorem lookup_of_writeAt {fs fs' : Fs} {start : Nat} {data : Bytes}
    (hfile : fs.lookup path = some (.file content))
    (h : Fs.writeAt path start data fs = .ok () fs') :
    start + data.size ≤ Fs.maxFileSize ∧
      fs'.lookup path = some (.file (content.overlay start data)) := by
  have hne : path ≠ [] := by
    rintro rfl
    simp at hfile
  have hfollows := Fs.follows_writeAt path start data fs
  obtain ⟨hsize, -⟩ := Fs.writeAt_ok_iff.1 h
  simp only [Fs.reach_of_lookup hne hfile, if_pos hsize] at hfollows
  obtain ⟨left, hleft, hreplaced⟩ := hfollows
  rw [h] at hleft
  obtain ⟨-, rfl⟩ := EStateM.Result.ok.inj hleft
  exact ⟨hsize, hreplaced.here⟩

/-- Bytes are only written into a file that is there. -/
theorem exists_file_of_writeAt {start : Nat} {data : Bytes} {fs fs' : Fs}
    (h : Fs.writeAt path start data fs = .ok () fs') :
    ∃ content, fs.lookup path = some (.file content) := by
  have hfollows := Fs.follows_writeAt path start data fs
  obtain ⟨hsize, -⟩ := Fs.writeAt_ok_iff.1 h
  simp only [if_pos hsize] at hfollows
  rcases hreach : fs.reach path with e | _ | ⟨content⟩ | ⟨children⟩
  · rw [hreach] at hfollows
    cases h.symm.trans hfollows
  · rw [hreach] at hfollows
    cases h.symm.trans hfollows
  · exact ⟨content, Fs.lookup_of_reach hreach⟩
  · rw [hreach] at hfollows
    cases h.symm.trans hfollows

theorem OpenFile.toNat_writeStart (h : g.OpenFile fd path offset append content) :
    (writeStart append offset content).toNat = if append then content.size else offset.toNat := by
  rw [writeStart]
  split
  · exact UInt64.toNat_ofNat_of_lt' h.size
  · rfl

/-- A file that may be as long as this can be measured by a word after the write, too. -/
theorem OpenFile.size_overlay_lt (h : g.OpenFile fd path offset append content) {start : Nat}
    {data : Bytes} (hend : start + data.size ≤ Fs.maxFileSize) :
    (content.overlay start data).size < UInt64.size := by
  have hmax : Fs.maxFileSize < UInt64.size := by decide
  rw [Bytes.size_overlay]
  exact Nat.max_lt.2 ⟨h.size, Nat.lt_of_le_of_lt hend hmax⟩

/-- After a write the file is open as before, with the bytes in it and the offset behind them. -/
theorem OpenFile.of_write (h : g.OpenFile fd path offset append content) {data : Bytes} {n : Nat}
    (hrun : write fd data g = .ok n g') :
    let start := writeStart append offset content
    (start + UInt64.ofNat data.size).toNat = start.toNat + data.size ∧
      g'.OpenFile fd path (start + UInt64.ofNat data.size) append
        (content.overlay start.toNat data) := by
  obtain ⟨fs, hwrite, -, rfl⟩ := h.write_ok_iff.1 hrun
  obtain ⟨hend, hlookup⟩ := lookup_of_writeAt h.file hwrite
  have hmax : Fs.maxFileSize < 2 ^ 64 := by decide
  have hword : data.size < 2 ^ 64 := by omega
  refine ⟨?_, get?_rebound (g := { g with fs }) h.descriptor _, hlookup, h.size_overlay_lt hend⟩
  rw [UInt64.toNat_add, UInt64.toNat_ofNat_of_lt' hword]
  exact Nat.mod_eq_of_lt (by omega)

theorem OpenFile.writeAt_ok (h : g.OpenFile fd path offset append content) {data : Bytes}
    {n start : Nat} (hrun : writeAt fd data start g = .ok n g') :
    n = data.size ∧ g'.OpenFile fd path offset append (content.overlay start data) := by
  rw [writeAt, run_bind_of_ok (descriptor_eq h.descriptor)] at hrun
  obtain ⟨_, t, hwrite, hrun⟩ := exists_of_bind hrun
  obtain ⟨rfl, rfl⟩ := EStateM.Result.ok.inj hrun
  obtain ⟨fs, hfs, rfl⟩ := onFs_ok hwrite
  obtain ⟨hend, hlookup⟩ := lookup_of_writeAt h.file hfs
  exact ⟨rfl, h.descriptor, hlookup, h.size_overlay_lt hend⟩

/-- Two writes that succeed leave what one write of all the bytes leaves. -/
theorem OpenFile.write_append (h : g.OpenFile fd path offset append content)
    {first second : Bytes} {between : Guest} {m n : Nat}
    (hfirst : write fd first g = .ok m between) (hsecond : write fd second between = .ok n g') :
    write fd (first ++ second) g = .ok (first ++ second).size g' := by
  obtain ⟨hstart, hbetween⟩ := h.of_write hfirst
  -- the second write begins where the first one ended, whether or not the descriptor appends
  have hnext : writeStart append (writeStart append offset content + UInt64.ofNat first.size)
      (content.overlay (writeStart append offset content).toNat first) =
        writeStart append offset content + UInt64.ofNat first.size := by
    cases append with
    | false => rfl
    | true =>
      have hend : (writeStart true offset content).toNat = content.size := h.toNat_writeStart
      rw [hend, Bytes.overlay_size, writeStart, if_pos rfl, ByteArray.size_append,
        UInt64.ofNat_add]
      rfl
  obtain ⟨fs, hwrite, -, rfl⟩ := h.write_ok_iff.1 hfirst
  obtain ⟨fs', hwrite', -, rfl⟩ := hbetween.write_ok_iff.1 hsecond
  rw [hnext, hstart] at hwrite'
  refine h.write_ok_iff.2 ⟨fs', Fs.writeAt_append hwrite hwrite', rfl, ?_⟩
  rw [hnext, ByteArray.size_append, UInt64.ofNat_add, ← UInt64.add_assoc]
  exact rebound_rebound { g with fs := fs' } ..

theorem ok_of_call_write {data : Bytes} (h : (g.call (.write fd data)).1.isOk) :
    ∃ n, write fd data g = .ok n (g.call (.write fd data)).2 := by
  rw [call, perform, run_bind] at h ⊢
  cases hrun : write fd data g with
  | ok n t => exact ⟨n, rfl⟩
  | error e t => simp [hrun, Except.isOk, Except.toBool] at h

/-- Writes one after the other that all succeed leave what one write of all the bytes leaves. -/
theorem OpenFile.run_writes (h : g.OpenFile fd path offset append content) {chunks : List Bytes}
    (hne : chunks ≠ []) (hok : ∀ reply ∈ (g.run (chunks.map (.write fd))).1, reply.isOk) :
    write fd (Bytes.concat chunks) g =
      .ok (Bytes.concat chunks).size (g.run (chunks.map (.write fd))).2 := by
  induction chunks generalizing g offset content with
  | nil => exact absurd rfl hne
  | cons chunk rest ih =>
    rw [List.map_cons, run, List.forall_mem_cons] at hok
    obtain ⟨n, hfirst⟩ := ok_of_call_write hok.1
    cases rest with
    | nil =>
      obtain ⟨fs, -, rfl, -⟩ := h.write_ok_iff.1 hfirst
      simpa [run] using hfirst
    | cons next more =>
      exact h.write_append hfirst (ih (h.of_write hfirst).2 (List.cons_ne_nil _ _) hok.2)

/-! ### The bytes of the file afterwards -/

/-- Data lies over old bytes from a position on; a gap in front of it is filled with zeros. -/
structure Laid (old : Bytes) (start : Nat) (data new : Bytes) : Prop where
  size_eq : new.size = max old.size (start + data.size)
  inside : new.slice start data.size = data
  outside : ∀ i, i < old.size → (i < start ∨ start + data.size ≤ i) → new.byteAt i = old.byteAt i
  gap : ∀ i, old.size ≤ i → i < start → new.byteAt i = 0

theorem laid_overlay (old : Bytes) (start : Nat) (data : Bytes) :
    Laid old start data (old.overlay start data) where
  size_eq := Bytes.size_overlay old start data
  inside := by
    have hsize : ((old.overlay start data).slice start data.size).size = data.size := by
      rw [Bytes.size_slice, Bytes.size_overlay]
      omega
    apply Bytes.ext_byteAt hsize
    intro i hi
    rw [Bytes.byteAt_slice, if_pos (by omega), Bytes.byteAt_overlay, if_pos (by omega),
      Nat.add_sub_cancel_left]
  outside i _ hi := by rw [Bytes.byteAt_overlay, if_neg (by omega)]
  gap i hold hi := by rw [Bytes.byteAt_overlay, if_neg (by omega), Bytes.byteAt_of_le hold]

/-- Reading and writing an open file does not depend on how the transfer is cut into calls. Reads
of any sizes give, put together, what follows the offset up to the sum of the sizes or the end of
the file, and move the offset by as much; nothing else changes. If writes of some chunks all
succeed, one write of all the bytes succeeds and leaves the same guest: the bytes lie behind the
end if the descriptor appends, else at the offset. -/
theorem run_in_pieces (h : g.OpenFile fd path offset append content) :
    (∀ sizes : List Nat, ∃ (chunks : List Bytes) (offset' : UInt64),
      g.run (sizes.map (.read fd)) =
        (chunks.map fun chunk => .ok (.data chunk), g.rebound fd (.file path offset' append)) ∧
      Bytes.concat chunks = content.slice offset.toNat sizes.sum ∧
      offset'.toNat = offset.toNat + (Bytes.concat chunks).size) ∧
    ∀ chunks : List Bytes, chunks ≠ [] →
      (∀ reply ∈ (g.run (chunks.map (.write fd))).1, reply.isOk) →
      let whole := Bytes.concat chunks
      let start := if append then content.size else offset.toNat
      g.call (.write fd whole) =
          (.ok (.count whole.size), (g.run (chunks.map (.write fd))).2) ∧
        ∃ (offset' : UInt64) (content' : Bytes),
          (g.run (chunks.map (.write fd))).2.OpenFile fd path offset' append content' ∧
          offset'.toNat = start + whole.size ∧
          Laid content start whole content' ∧
          (append = true → content' = content ++ whole) := by
  constructor
  · intro sizes
    obtain ⟨chunks, hrun, hconcat⟩ := h.run_reads sizes
    refine ⟨chunks, _, hrun, hconcat, ?_⟩
    rw [hconcat]
    exact h.toNat_add_slice sizes.sum
  · intro chunks hne hok whole start
    have hwhole := h.run_writes hne hok
    obtain ⟨hoffset, hopen⟩ := h.of_write hwhole
    have hstart : (writeStart append offset content).toNat = start := h.toNat_writeStart
    rw [hstart] at hoffset hopen
    refine ⟨call_of_ok .count rfl hwhole, _, _, hopen, hoffset,
      laid_overlay content start whole, ?_⟩
    intro happend
    have hend : start = content.size := if_pos happend
    rw [hend, Bytes.overlay_size]

/-- A guest with two descriptors for one file: one beyond its end, the other one for appending. -/
def beyondEnd : Guest :=
  ((start [("notes", .file (Bytes.ofText "abcde"))] {} [] [] [Preopen.root] .zeros).opened 4
    (.file ["notes"] 7 false)).opened 5 (.file ["notes"] 2 true)

/-- An empty chunk and two others are written behind a gap, and at the end. -/
theorem run_in_pieces_beyondEnd :
    let chunks := [ByteArray.empty, Bytes.ofText "x", Bytes.ofText "yz"]
    (∃ parts, (beyondEnd.run ([2, 0, 4].map (.read 5))).1 =
        parts.map (fun part => .ok (.data part)) ∧ Bytes.concat parts = Bytes.ofText "cde") ∧
      (∀ fd ∈ [4, 5], (∀ reply ∈ (beyondEnd.run (chunks.map (.write fd))).1, reply.isOk) ∧
        beyondEnd.call (.write fd (Bytes.concat chunks)) =
          (.ok (.count 3), (beyondEnd.run (chunks.map (.write fd))).2)) ∧
      (beyondEnd.run (chunks.map (.write 4))).2.fs.lookup ["notes"] =
        some (.file (Bytes.ofText "abcde\x00\x00xyz")) ∧
      (beyondEnd.run (chunks.map (.write 5))).2.fs.lookup ["notes"] =
        some (.file (Bytes.ofText "abcdexyz")) := by
  intro chunks
  have hordinary : beyondEnd.OpenFile 4 ["notes"] 7 false (Bytes.ofText "abcde") :=
    ⟨by decide, rfl, by decide⟩
  have happending : beyondEnd.OpenFile 5 ["notes"] 2 true (Bytes.ofText "abcde") :=
    ⟨by decide, rfl, by decide⟩
  have hok : ∀ fd ∈ [4, 5],
      ∀ reply ∈ (beyondEnd.run (chunks.map (.write fd))).1, reply.isOk := by decide
  obtain ⟨parts, offset', hrun, hconcat, -⟩ := (run_in_pieces happending).1 [2, 0, 4]
  refine ⟨⟨parts, congrArg Prod.fst hrun, hconcat.trans (by decide)⟩, ?_, rfl, rfl⟩
  simp only [List.forall_mem_cons, List.not_mem_nil, false_imp_iff, implies_true, and_true]
  exact ⟨⟨hok 4 (by simp), ((run_in_pieces hordinary).2 chunks (by decide) (hok 4 (by simp))).1⟩,
    ⟨hok 5 (by simp), ((run_in_pieces happending).2 chunks (by decide) (hok 5 (by simp))).1⟩⟩

end StagedSandbox.Guest
