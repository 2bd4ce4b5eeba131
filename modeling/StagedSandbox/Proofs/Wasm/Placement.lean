import StagedSandbox.Proofs.Wasm.Run

/-!
# Addresses of a linked program

A linker that counts addresses in words of 32 bits might run out of them. The text of a linked
program takes three characters for each byte of its data, so data that brings the cursor to its
end makes a text that no file can hold; as long as the text fits, the cursor counts as a natural
number does (`ofCursor_eq`). The data then lies where the program says (`placed_of_size_render`).
-/

namespace StagedSandbox.Wasm.Linked

/-! ### A cursor of 32 bits -/

/-- Lay out operations from a cursor on: the data, the steps, and the cursor at the end. -/
def emit (cursor : UInt32) : List Op → List (Nat × Bytes) × List Action × UInt32
  | [] => ([], [], cursor)
  | .write data :: rest =>
    if data.size = 0 then emit cursor rest
    else
      let (segments, actions, last) := emit (cursor + UInt32.ofNat data.size) rest
      ((cursor.toNat, data) :: segments, .write cursor.toNat data.size :: actions, last)
  | .exit code :: rest =>
    let (segments, actions, last) := emit cursor rest
    (segments, .exit code :: actions, last)
  | .abort :: rest =>
    let (segments, actions, last) := emit cursor rest
    (segments, .abort :: actions, last)

/-- The cursor behind the data of operations. -/
def cursorAfter (ops : List Op) : UInt32 := (emit (UInt32.ofNat dataBase) ops).2.2

/-- The pages up to a cursor, rounded up, and at least one. -/
def cursorPages (cursor : UInt32) : Nat :=
  max 1 (if cursor % 65536 = 0 then cursor / 65536 else cursor / 65536 + 1).toNat

/-- Lay out operations as a linked program by a cursor of 32 bits. -/
def ofCursor (ops : List Op) : Linked where
  raises := ops.contains .abort
  pages := cursorPages (cursorAfter ops)
  segments := (emit (UInt32.ofNat dataBase) ops).1
  actions := (emit (UInt32.ofNat dataBase) ops).2.1

theorem toNat_add_ofNat {cursor : UInt32} {n : Nat} (h : cursor.toNat + n < UInt32.size) :
    (cursor + UInt32.ofNat n).toNat = cursor.toNat + n := by
  have hn : n < UInt32.size := by omega
  rw [UInt32.toNat_add, UInt32.toNat_ofNat_of_lt' hn]
  exact Nat.mod_eq_of_lt h

/-- As long as the data fits, a cursor of 32 bits gives the addresses of a natural number. -/
theorem emit_eq {cursor : UInt32} {ops : List Op}
    (h : cursor.toNat + dataSize ops < UInt32.size) :
    emit cursor ops = (placeData cursor.toNat ops, placeActions cursor.toNat ops,
      cursor + UInt32.ofNat (dataSize ops)) := by
  induction ops generalizing cursor with
  | nil => simp [emit, placeData, placeActions, dataSize]
  | cons op rest ih =>
    cases op with
    | exit code =>
      rw [dataSize_exit_cons] at h ⊢
      rw [emit, ih h]
      rfl
    | abort =>
      rw [dataSize_abort_cons] at h ⊢
      rw [emit, ih h]
      rfl
    | write data =>
      rw [dataSize_write_cons] at h ⊢
      have hnext := @toNat_add_ofNat cursor data.size (by omega)
      rw [emit, placeData, placeActions]
      split
      · next hempty =>
        rw [ih (by omega), hempty, Nat.zero_add]
      · rw [ih (by omega), hnext, UInt32.ofNat_add, UInt32.add_assoc]

/-- Wherever the cursor stands, all data is placed. -/
theorem sum_emit (cursor : UInt32) (ops : List Op) :
    totalSize (·.2.size) (emit cursor ops).1 = dataSize ops := by
  induction ops generalizing cursor with
  | nil => rfl
  | cons op rest ih =>
    cases op with
    | exit code =>
      rw [dataSize_exit_cons]
      exact ih cursor
    | abort =>
      rw [dataSize_abort_cons]
      exact ih cursor
    | write data =>
      rw [dataSize_write_cons, emit]
      split
      · next hempty => rw [ih, hempty, Nat.zero_add]
      · rw [totalSize, ih]

theorem cursorPages_eq (cursor : UInt32) : cursorPages cursor = pagesFor cursor.toNat := by
  have hpage : Memory.pageSize = 65536 := rfl
  have hcursor := cursor.toNat_lt
  have hmod : cursor % 65536 = 0 ↔ cursor.toNat % 65536 = 0 := by
    rw [← UInt32.toNat_inj, UInt32.toNat_mod]
    rfl
  have hdiv : (cursor / 65536).toNat = cursor.toNat / 65536 := by
    rw [UInt32.toNat_div]
    rfl
  rw [cursorPages, pagesFor, hpage]
  congr 1
  split
  · next hzero =>
    rw [hmod] at hzero
    rw [hdiv]
    omega
  · next hne =>
    rw [hmod] at hne
    have hone : (1 : UInt32).toNat = 1 := rfl
    rw [UInt32.toNat_add, hdiv, hone]
    omega

theorem toNat_dataBase : (UInt32.ofNat dataBase).toNat = dataBase := rfl

theorem toNat_cursorAfter {ops : List Op} (h : dataBase + dataSize ops < UInt32.size) :
    (cursorAfter ops).toNat = dataBase + dataSize ops := by
  rw [cursorAfter, emit_eq (by rwa [toNat_dataBase])]
  exact toNat_add_ofNat (by rwa [toNat_dataBase])

/-- As long as the data fits, the layout by a cursor of 32 bits is the layout of the program. -/
theorem ofCursor_eq {ops : List Op} (h : dataBase + dataSize ops < UInt32.size) :
    ofCursor ops = ofOps ops := by
  have hemit : emit (UInt32.ofNat dataBase) ops = _ := emit_eq (by rwa [toNat_dataBase])
  rw [ofCursor, ofOps, cursorPages_eq, toNat_cursorAfter h, hemit, toNat_dataBase]

theorem lt_of_size_render {l : Linked} (h : (Bytes.ofText l.render).size ≤ Fs.maxFileSize) :
    dataBase + totalSize (·.2.size) l.segments < UInt32.size := by
  have hrender := l.le_length_render
  have hlength := Bytes.length_le_size_ofText l.render
  have hbase : dataBase = 1024 := rfl
  have hmax : Fs.maxFileSize ≤ 2 ^ 30 := by decide
  have hword : UInt32.size = 2 ^ 32 := rfl
  omega

/-- If the text fits into a file, whichever way the addresses are counted, both ways agree. -/
theorem ofCursor_eq_of_size_render {ops : List Op}
    (h : (Bytes.ofText (ofCursor ops).render).size ≤ Fs.maxFileSize ∨
      (Bytes.ofText (ofOps ops).render).size ≤ Fs.maxFileSize) : ofCursor ops = ofOps ops := by
  apply ofCursor_eq
  obtain h | h := h
  · rw [← sum_emit (UInt32.ofNat dataBase) ops]
    exact lt_of_size_render h
  · rw [← sum_placeData dataBase ops]
    exact lt_of_size_render h

/-! ### Where the data lies -/

/-- Segments lie one behind the other from an address on. -/
def Contiguous (address : Nat) : List (Nat × Bytes) → Prop
  | [] => True
  | segment :: rest => segment.1 = address ∧ Contiguous (address + segment.2.size) rest

theorem Contiguous.le {address : Nat} {segments : List (Nat × Bytes)}
    (h : Contiguous address segments) : ∀ segment ∈ segments, address ≤ segment.1 := by
  induction segments generalizing address with
  | nil => exact fun _ hmem => absurd hmem List.not_mem_nil
  | cons segment rest ih =>
    obtain ⟨hfirst, hrest⟩ := h
    rw [List.forall_mem_cons]
    refine ⟨Nat.le_of_eq hfirst.symm, fun later hmem => ?_⟩
    have := ih hrest later hmem
    omega

theorem Contiguous.pairwise {address : Nat} {segments : List (Nat × Bytes)}
    (h : Contiguous address segments) :
    segments.Pairwise fun first later => first.1 + first.2.size ≤ later.1 := by
  induction segments generalizing address with
  | nil => exact List.Pairwise.nil
  | cons segment rest ih =>
    obtain ⟨rfl, hrest⟩ := h
    exact List.Pairwise.cons hrest.le (ih hrest)

theorem contiguous_placeData (address : Nat) (ops : List Op) :
    Contiguous address (placeData address ops) := by
  induction ops generalizing address with
  | nil => trivial
  | cons op rest ih =>
    cases op with
    | exit code => exact ih address
    | abort => exact ih address
    | write data =>
      rw [placeData]
      split
      · exact ih address
      · exact ⟨rfl, ih (address + data.size)⟩

/-- The data of the writes that are not empty. -/
def writtenData : List Op → List Bytes
  | [] => []
  | .write data :: rest => if data.size = 0 then writtenData rest else data :: writtenData rest
  | _ :: rest => writtenData rest

theorem map_snd_placeData (address : Nat) (ops : List Op) :
    (placeData address ops).map Prod.snd = writtenData ops := by
  induction ops generalizing address with
  | nil => rfl
  | cons op rest ih =>
    cases op with
    | exit code => exact ih address
    | abort => exact ih address
    | write data =>
      rw [placeData, writtenData]
      split
      · exact ih address
      · rw [List.map_cons, ih]

theorem dataSize_append (before after : List Op) :
    dataSize (before ++ after) = dataSize before + dataSize after := by
  induction before with
  | nil => simp [dataSize]
  | cons op rest ih =>
    cases op with
    | exit code => exact ih
    | abort => exact ih
    | write data => simp only [List.cons_append, dataSize_write_cons, ih, Nat.add_assoc]

/-- The memory layout of a linked program is sound. -/
structure Placed (ops : List Op) (l : Linked) : Prop where
  /-- The cursor never wraps around: it stands behind all data that was placed so far. -/
  cursor : ∀ before, before <+: ops → (cursorAfter before).toNat = dataBase + dataSize before
  data : l.segments.map Prod.snd = writtenData ops
  contiguous : Contiguous dataBase l.segments
  apart : l.segments.Pairwise fun first later => first.1 + first.2.size ≤ later.1
  scratch : ∀ segment ∈ l.segments, scratchSize ≤ segment.1
  inside : ∀ segment ∈ l.segments, segment.1 + segment.2.size ≤ l.pages * Memory.pageSize
  pages : 1 ≤ l.pages ∧ l.pages ≤ maxPages
  memory : ∃ m, l.memory? = some m ∧ m.size = l.pages * Memory.pageSize ∧ m.Holds l.segments
  calls : l.actions.filterMap Action.buffer? =
    l.segments.map fun segment => (segment.1, segment.2.size)

/-- A program whose text fits into a file, with its addresses counted in words, is laid out
soundly. -/
theorem placed_of_size_render {ops : List Op}
    (h : (Bytes.ofText (ofCursor ops).render).size ≤ Fs.maxFileSize) :
    Placed ops (ofCursor ops) := by
  have hsize : dataBase + dataSize ops < UInt32.size := by
    rw [← sum_emit (UInt32.ofNat dataBase) ops]
    exact lt_of_size_render h
  have hfits : dataBase + dataSize ops ≤ maxPages * Memory.pageSize := Nat.le_of_lt hsize
  have hcontiguous := contiguous_placeData dataBase ops
  rw [ofCursor_eq hsize]
  obtain ⟨m, hmemory, -, hpages, hholds⟩ := memory?_ofOps hfits
  constructor
  case cursor =>
    rintro before ⟨after, rfl⟩
    rw [dataSize_append] at hsize
    exact toNat_cursorAfter (by omega)
  case data => exact map_snd_placeData dataBase ops
  case contiguous => exact hcontiguous
  case apart => exact hcontiguous.pairwise
  case scratch =>
    intro segment hmem
    exact Nat.le_trans (by decide) (hcontiguous.le segment hmem)
  case inside =>
    intro segment hmem
    obtain ⟨-, hend, -⟩ := mem_placeData hmem
    exact hend.trans (le_pagesFor_mul _)
  case pages => exact ⟨Nat.le_max_left .., pagesFor_le hfits⟩
  case memory => exact ⟨m, hmemory, hpages, hholds⟩
  case calls => exact filterMap_placeActions dataBase ops

end StagedSandbox.Wasm.Linked
