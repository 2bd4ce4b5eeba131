import Mathlib.Data.List.Perm.Subperm
import StagedSandbox.Proofs.Guest.Sequential
import StagedSandbox.Proofs.Wasi.Frame

/-!
# Transfers through several buffers

An array of buffers designates a list of addresses, the buffers one behind the other. If no
address is in it twice, reading into the buffers stores the bytes of the file at these addresses
in their order, as one read into a single buffer would (`vectored_eq_flat`), and writing from them
takes the bytes from the addresses in their order.
-/

namespace StagedSandbox.Wasi

open StagedSandbox.Action

/-! ### Addresses of buffers -/

/-- The addresses of buffers, each given by its start and its length. -/
def addresses (list : List (Nat × Nat)) : List Nat :=
  list.flatMap fun buffer => List.range' buffer.1 buffer.2

@[simp] theorem addresses_nil : addresses [] = [] := rfl

@[simp] theorem addresses_cons (buffer : Nat × Nat) (rest : List (Nat × Nat)) :
    addresses (buffer :: rest) = List.range' buffer.1 buffer.2 ++ addresses rest := rfl

theorem length_addresses (list : List (Nat × Nat)) :
    (addresses list).length = totalSize Prod.snd list := by
  induction list with
  | nil => rfl
  | cons buffer rest ih =>
    rw [addresses_cons, List.length_append, List.length_range', ih, totalSize]

theorem lt_of_mem_addresses {list : List (Nat × Nat)} {size : Nat}
    (h : ∀ buffer ∈ list, buffer.1 + buffer.2 ≤ size) {address : Nat}
    (hmem : address ∈ addresses list) : address < size := by
  obtain ⟨buffer, hbuffer, hrange⟩ := List.mem_flatMap.1 hmem
  have := h buffer hbuffer
  rw [List.mem_range'_1] at hrange
  omega

/-- Buffers that lie apart within a memory have together no more bytes than the memory. -/
theorem totalSize_le_of_nodup {list : List (Nat × Nat)} {size : Nat}
    (h : ∀ buffer ∈ list, buffer.1 + buffer.2 ≤ size) (hnodup : (addresses list).Nodup) :
    totalSize Prod.snd list ≤ size := by
  have hsub : addresses list ⊆ List.range size := fun address hmem =>
    List.mem_range.2 (lt_of_mem_addresses h hmem)
  rw [← length_addresses, ← List.length_range (n := size)]
  exact (hnodup.subperm hsub).length_le

/-! ### What is gathered -/

/-- The contents of buffers, one behind the other. -/
def contents (memory : Memory) (list : List (Nat × Nat)) : Bytes :=
  Bytes.concat (list.map fun buffer => memory.read buffer.1 buffer.2)

theorem list_contents (memory : Memory) (list : List (Nat × Nat)) :
    (contents memory list).list = (addresses list).map memory.byte := by
  induction list with
  | nil => rfl
  | cons buffer rest ih =>
    rw [contents] at ih
    rw [contents, List.map_cons, Bytes.concat_cons, Bytes.list_append, ih, Memory.list_read,
      addresses_cons, List.map_append]

/-- The buffers in an array that does not leave the memory. -/
theorem buffers_eq {m : Machine} {array index count : Nat} (hsize : m.memory.size ≤ UInt32.size)
    (harray : count ≠ 0 → array + 8 * (index + count) ≤ m.memory.size) :
    buffers array index count m =
      .ok ((List.range' index count).map fun i =>
        (m.memory.word (array + 8 * i), m.memory.word (array + 8 * i + 4))) m := by
  induction count generalizing index with
  | zero => rfl
  | succ count ih =>
    have hlast := harray (Nat.succ_ne_zero count)
    have hrest := @ih (index + 1) fun _ => by omega
    rw [buffers, advance_eq (by omega), pure_bind, run_bind_of_ok (loadWord_eq (by omega)),
      advance_eq (by omega), pure_bind, run_bind_of_ok (loadWord_eq (by omega)),
      run_bind_of_ok hrest, List.range'_succ, List.map_cons]
    rfl

theorem buffers_eq_bufferRanges {m : Machine} {array count : Nat}
    (hsize : m.memory.size ≤ UInt32.size)
    (harray : count ≠ 0 → array + 8 * count ≤ m.memory.size) :
    buffers array 0 count m = .ok (bufferRanges m.memory array count) m := by
  have hbuffers := @buffers_eq m array 0 count hsize (by rwa [Nat.zero_add])
  rw [hbuffers, ← eq_bufferRanges hbuffers]

theorem gather_ok {list : List (Nat × Nat)} {m m' : Machine} {soFar data : Bytes}
    (h : gather soFar list m = .ok data m') : m' = m ∧ data = soFar ++ contents m.memory list := by
  induction list generalizing soFar with
  | nil =>
    obtain ⟨rfl, rfl⟩ := EStateM.Result.ok.inj h
    exact ⟨rfl, ByteArray.append_empty.symm⟩
  | cons buffer rest ih =>
    obtain ⟨start, length⟩ := buffer
    obtain ⟨first, hload, h⟩ := (keeps_load _ _).ok_of_bind h
    obtain ⟨rfl, rfl⟩ := ih h
    have hfirst : first = m'.memory.read start length := by
      by_cases hrange : start + length ≤ m'.memory.size
      · rw [load_eq hrange] at hload
        exact (EStateM.Result.ok.inj hload).1.symm
      · rw [load, Memory.read?, if_neg hrange] at hload
        cases hload
    rw [hfirst, ByteArray.append_assoc]
    exact ⟨rfl, rfl⟩

/-! ### What is scattered -/

/-- Data was stored in buffers, in the order of their addresses, and nothing else has changed. -/
structure Filled (data : Bytes) (list : List (Nat × Nat)) (before after : Memory) : Prop where
  wellFormed : after.WellFormed
  size_eq : after.size = before.size
  bytes : (addresses list).map after.byte =
    data.list ++ ((addresses list).drop data.size).map before.byte
  outside : ∀ address, address ∉ addresses list → after.byte address = before.byte address

theorem filled_empty {memory : Memory} (h : memory.WellFormed) (list : List (Nat × Nat)) :
    Filled ByteArray.empty list memory memory :=
  ⟨h, rfl, rfl, fun _ _ => rfl⟩

theorem filled_put {memory : Memory} (h : memory.WellFormed) {start length : Nat} {data : Bytes}
    (hdata : data.size ≤ length) :
    Filled data [(start, length)] memory (memory.put start data) where
  wellFormed := h.put start data
  size_eq := rfl
  bytes := by
    have hsplit : List.range' start length =
        List.range' start data.size ++ List.range' (start + data.size) (length - data.size) := by
      rw [List.range'_append_1, Nat.add_sub_cancel' hdata]
    have hput : (List.range' start data.size).map (memory.put start data).byte = data.list := by
      rw [← Memory.list_read, h.read_put_self]
    have hrest : ∀ address ∈ List.range' (start + data.size) (length - data.size),
        (memory.put start data).byte address = memory.byte address := by
      intro address haddress
      rw [List.mem_range'_1] at haddress
      rw [h.byte_put, if_neg (by omega)]
    rw [addresses_cons, addresses_nil, List.append_nil, hsplit, List.map_append, hput,
      List.map_congr_left hrest, List.drop_left' List.length_range']
  outside address haddress := by
    rw [addresses_cons, addresses_nil, List.append_nil, List.mem_range'_1] at haddress
    rw [h.byte_put, if_neg (by omega)]

/-- What is stored in the other buffers comes behind what is stored in the first one, which is
full if there is more to come. -/
theorem Filled.cons {buffer : Nat × Nat} {rest : List (Nat × Nat)} {first more : Bytes}
    {before between after : Memory} (hfirst : Filled first [buffer] before between)
    (hrest : Filled more rest between after) (hnodup : (addresses (buffer :: rest)).Nodup)
    (hle : first.size ≤ buffer.2) (hfull : first.size = buffer.2 ∨ more = ByteArray.empty) :
    Filled (first ++ more) (buffer :: rest) before after := by
  obtain ⟨-, -, hdisjoint⟩ := List.nodup_append.1 hnodup
  have hbuffer : addresses [buffer] = List.range' buffer.1 buffer.2 := by
    rw [addresses_cons, addresses_nil, List.append_nil]
  have hhead : (List.range' buffer.1 buffer.2).map after.byte =
      first.list ++ ((List.range' buffer.1 buffer.2).drop first.size).map before.byte := by
    rw [← hbuffer, ← hfirst.bytes, hbuffer]
    exact List.map_congr_left fun address hmem => hrest.outside address
      fun hin => hdisjoint address hmem address hin rfl
  have htail : ((addresses rest).drop more.size).map between.byte =
      ((addresses rest).drop more.size).map before.byte := by
    refine List.map_congr_left fun address hmem => hfirst.outside address ?_
    rw [hbuffer]
    exact fun hin => hdisjoint address hin address (List.mem_of_mem_drop hmem) rfl
  refine ⟨hrest.wellFormed, hrest.size_eq.trans hfirst.size_eq, ?_, ?_⟩
  · have hlength : (List.range' buffer.1 buffer.2).length = buffer.2 := List.length_range'
    rw [addresses_cons, List.map_append, hhead, hrest.bytes, htail, Bytes.list_append,
      ByteArray.size_append]
    obtain hfull | rfl := hfull
    · have hdone : (List.range' buffer.1 buffer.2).drop first.size = [] :=
        List.drop_of_length_le (by omega)
      have hover : (List.range' buffer.1 buffer.2 ++ addresses rest).drop
          (first.size + more.size) = (addresses rest).drop more.size := by
        rw [hfull.trans hlength.symm, List.drop_length_add_append]
      rw [hdone, hover, List.map_nil, List.append_nil, List.append_assoc]
    · have hempty : Bytes.list ByteArray.empty = [] := rfl
      rw [hempty, ByteArray.size_empty, Nat.add_zero, List.append_nil, List.nil_append,
        List.drop_zero, List.drop_append_of_le_length (by omega), List.map_append,
        List.append_assoc]
  · intro address hout
    rw [addresses_cons, List.mem_append, not_or] at hout
    rw [hrest.outside address hout.2, hfirst.outside address (by rw [hbuffer]; exact hout.1)]

/-- A reader gives a file from a position on, one part behind the other. The guest after so many
bytes is the one that the next part is read from. -/
def Serves (reader : Nat → Nat → Guest.Action Bytes) (content : Bytes) (start : Nat)
    (guest : Nat → Guest) : Prop :=
  ∀ total length, total ≤ content.size - start →
    reader total length (guest total) =
      .ok (content.slice (start + total) length)
        (guest (total + (content.slice (start + total) length).size))

/-- However the buffers divide a transfer, it gives what one read of all their lengths gives. -/
theorem scatter_eq {reader : Nat → Nat → Guest.Action Bytes} {content : Bytes} {start : Nat}
    {guest : Nat → Guest} (hreader : Serves reader content start guest) {memory : Memory}
    (hwf : memory.WellFormed) {list : List (Nat × Nat)}
    (hlist : ∀ buffer ∈ list, buffer.1 + buffer.2 ≤ memory.size)
    (hnodup : (addresses list).Nodup) {total : Nat} (htotal : total ≤ content.size - start) :
    ∃ after, Filled (content.slice (start + total) (totalSize Prod.snd list)) list memory after ∧
      scatter reader total list ⟨memory, guest total⟩ =
        .ok (total + (content.slice (start + total) (totalSize Prod.snd list)).size)
          ⟨after,
            guest (total + (content.slice (start + total) (totalSize Prod.snd list)).size)⟩ := by
  induction list generalizing memory total with
  | nil =>
    rw [totalSize, Bytes.slice_zero]
    exact ⟨memory, filled_empty hwf [], rfl⟩
  | cons buffer rest ih =>
    obtain ⟨first, length⟩ := buffer
    obtain ⟨hbuffer, hrest⟩ := List.forall_mem_cons.1 hlist
    have hsize := Bytes.size_slice content (start + total) length
    have hread := hreader total length htotal
    rw [totalSize, ← Bytes.slice_add content (start + total) length (totalSize Prod.snd rest)]
    generalize content.slice (start + total) length = part at hsize hread ⊢
    have hput : Filled part [(first, length)] memory (memory.put first part) :=
      filled_put hwf (by omega)
    have hstep : onGuest (reader total length) ⟨memory, guest total⟩ =
        .ok part ⟨memory, guest (total + part.size)⟩ := by
      rw [onGuest, hread]
    have hstore : store first part ⟨memory, guest (total + part.size)⟩ =
        .ok () ⟨memory.put first part, guest (total + part.size)⟩ :=
      store_eq (by dsimp only at hbuffer ⊢; omega)
    rw [scatter, run_bind_of_ok (checkRange_eq hbuffer), run_bind_of_ok hstep,
      run_bind_of_ok hstore]
    by_cases hshort : part.size < length
    · -- the file ends in this buffer, so the others stay as they are
      have hend : content.size ≤ start + total + part.size := by omega
      have hcons := hput.cons (filled_empty hput.wellFormed rest) hnodup (Nat.le_of_lt hshort)
        (.inr rfl)
      rw [if_pos hshort, Bytes.slice_of_size_le hend]
      refine ⟨_, hcons, ?_⟩
      rw [ByteArray.append_empty]
      rfl
    · have hfull : part.size = length := by omega
      have hapart : (addresses rest).Nodup := (List.nodup_append.1 hnodup).2.1
      have htotal' : total + part.size ≤ content.size - start := by omega
      obtain ⟨after, hfilled, hrun⟩ := ih hput.wellFormed hrest hapart htotal'
      rw [← Nat.add_assoc] at hfilled hrun
      rw [if_neg hshort, ByteArray.size_append, ← Nat.add_assoc]
      exact ⟨after, hput.cons hfilled hnodup (Nat.le_of_eq hfull) (.inl hfull), hrun⟩

/-! ### The calls -/

/-- A memory has room for a transfer: the array and the buffers it gives lie within the memory,
and so does the result word. The buffers lie apart from each other and from the result word. -/
structure Vectors (memory : Memory) (array count resultAt : Nat) : Prop where
  wellFormed : memory.WellFormed
  addressable : memory.size ≤ UInt32.size
  array_le : count ≠ 0 → array + 8 * count ≤ memory.size
  result_le : resultAt + 4 ≤ memory.size
  buffer_le : ∀ buffer ∈ bufferRanges memory array count, buffer.1 + buffer.2 ≤ memory.size
  apart : (addresses ((resultAt, 4) :: bufferRanges memory array count)).Nodup

/-- Data was stored in buffers, in the order of their addresses, and its size in the result word.
Nothing else has changed. -/
structure Delivered (data : Bytes) (list : List (Nat × Nat)) (resultAt : Nat)
    (before after : Memory) : Prop where
  wellFormed : after.WellFormed
  size_eq : after.size = before.size
  bytes : (addresses list).map after.byte =
    data.list ++ ((addresses list).drop data.size).map before.byte
  count : after.word resultAt = data.size
  outside : ∀ address, address ∉ addresses ((resultAt, 4) :: list) →
    after.byte address = before.byte address

theorem Filled.delivered {data : Bytes} {list : List (Nat × Nat)} {before after : Memory}
    (h : Filled data list before after) {resultAt : Nat} (hsize : data.size < UInt32.size)
    (hnodup : (addresses ((resultAt, 4) :: list)).Nodup) :
    Delivered data list resultAt before (after.putWord resultAt data.size) := by
  have hword : ∀ address, address ∉ List.range' resultAt 4 →
      (after.putWord resultAt data.size).byte address = after.byte address := by
    intro address haddress
    rw [List.mem_range'_1] at haddress
    rw [Memory.putWord, h.wellFormed.byte_put, Memory.size_word, if_neg (by omega)]
  obtain ⟨-, -, hdisjoint⟩ := List.nodup_append.1 hnodup
  constructor
  case wellFormed => exact h.wellFormed.putWord _ _
  case size_eq => exact h.size_eq
  case bytes =>
    rw [← h.bytes]
    exact List.map_congr_left fun address hmem => hword address
      fun hin => hdisjoint address hin address hmem rfl
  case count => exact h.wellFormed.word_putWord_self resultAt hsize
  case outside =>
    intro address hout
    rw [addresses_cons, List.mem_append, not_or] at hout
    rw [hword address hout.1, h.outside address hout.2]

/-- A transfer that fills buffers in turn and then tells how many bytes that were. -/
theorem Vectors.fill {m : Machine} {array count resultAt : Nat}
    (h : Vectors m.memory array count resultAt) {reader : Nat → Nat → Guest.Action Bytes}
    {content : Bytes} {start : Nat} {guest : Nat → Guest}
    (hreader : Serves reader content start guest) (hguest : guest 0 = m.guest) :
    let list := bufferRanges m.memory array count
    let data := content.slice start (totalSize Prod.snd list)
    ∃ memory, Delivered data list resultAt m.memory memory ∧
      (do
        let n ← scatter reader 0 (← buffers array 0 count)
        storeWord resultAt (← word n) : Step Unit) m = .ok () ⟨memory, guest data.size⟩ := by
  intro list data
  have hapart : (addresses list).Nodup := (List.nodup_append.1 h.apart).2.1
  obtain ⟨after, hfilled, hrun⟩ := scatter_eq hreader h.wellFormed h.buffer_le hapart
    (Nat.zero_le (content.size - start))
  rw [Nat.add_zero] at hfilled hrun
  have hdata : data.size ≤ totalSize Prod.snd list := by
    rw [Bytes.size_slice]
    exact Nat.min_le_left ..
  have htotal : totalSize Prod.snd ((resultAt, 4) :: list) ≤ m.memory.size :=
    totalSize_le_of_nodup (List.forall_mem_cons.2 ⟨h.result_le, h.buffer_le⟩) h.apart
  have hword : data.size < UInt32.size := by
    have := h.addressable
    rw [totalSize] at htotal
    omega
  have hstart : (⟨m.memory, guest 0⟩ : Machine) = m := by rw [hguest]
  rw [hstart, Nat.zero_add] at hrun
  have hresult : resultAt + 4 ≤ after.size := by
    rw [hfilled.size_eq]
    exact h.result_le
  refine ⟨_, hfilled.delivered hword h.apart, ?_⟩
  rw [run_bind_of_ok (buffers_eq_bufferRanges h.addressable h.array_le), run_bind_of_ok hrun,
    word_eq hword, pure_bind]
  exact storeWord_eq hresult

section Calls

variable {m : Machine} {fd array count resultAt : UInt32} {path : Path} {offset : UInt64}
  {append : Bool} {content : Bytes}

/-- Reading moves the offset of the descriptor behind each part. -/
theorem serves_read (h : m.guest.OpenFile fd.toNat path offset append content) :
    Serves (fun _ length => Guest.read fd.toNat length) content offset.toNat fun total =>
      m.guest.rebound fd.toNat (.file path (offset + UInt64.ofNat total) append) := by
  intro total length htotal
  have hoffset : (offset + UInt64.ofNat total).toNat = offset.toNat + total := by
    have hparts := h.toNat_add_slice total
    rwa [Bytes.size_slice, Nat.min_eq_left htotal] at hparts
  have hread := (h.rebound (offset + UInt64.ofNat total)).read_eq length
  rw [hoffset, Guest.rebound_rebound, UInt64.add_assoc, ← UInt64.ofNat_add] at hread
  exact hread

theorem serves_readAt (h : m.guest.OpenFile fd.toNat path offset append content) (start : Nat) :
    Serves (fun total length => Guest.readAt fd.toNat length (start + total)) content start
      fun _ => m.guest :=
  fun total length _ => h.readAt_eq length (start + total)

theorem perform_fdRead (h : m.guest.OpenFile fd.toNat path offset append content)
    (hroom : Vectors m.memory array.toNat count.toNat resultAt.toNat) :
    let list := bufferRanges m.memory array.toNat count.toNat
    let data := content.slice offset.toNat (totalSize Prod.snd list)
    ∃ memory, Delivered data list resultAt.toNat m.memory memory ∧
      perform (.fdRead fd array count resultAt) m =
        (.returned 0, ⟨memory, m.guest.rebound fd.toNat
          (.file path (offset + UInt64.ofNat data.size) append)⟩) := by
  intro list data
  have hself :
      m.guest.rebound fd.toNat (.file path (offset + UInt64.ofNat 0) append) = m.guest := by
    rw [show offset + UInt64.ofNat 0 = offset from UInt64.add_zero offset]
    exact Guest.rebound_self h.descriptor
  obtain ⟨memory, hdelivered, hrun⟩ := hroom.fill (serves_read h) hself
  exact ⟨memory, hdelivered, perform_of_ok rfl hrun⟩

theorem perform_fdPread (h : m.guest.OpenFile fd.toNat path offset append content)
    (hroom : Vectors m.memory array.toNat count.toNat resultAt.toNat) {position : Int64}
    (hposition : 0 ≤ position.toInt) :
    let list := bufferRanges m.memory array.toNat count.toNat
    ∃ memory, Delivered (content.slice position.toInt.toNat (totalSize Prod.snd list)) list
        resultAt.toNat m.memory memory ∧
      perform (.fdPread fd array count position resultAt) m = (.returned 0, ⟨memory, m.guest⟩) := by
  intro list
  obtain ⟨memory, hdelivered, hrun⟩ := hroom.fill (serves_readAt h position.toInt.toNat) rfl
  refine ⟨memory, hdelivered, perform_of_ok rfl ?_⟩
  rw [memoryStep, filePosition_eq hposition, pure_bind]
  exact hrun

/-- What a successful write at a position leaves in the file. -/
theorem openFile_of_fdPwrite (h : m.guest.OpenFile fd.toNat path offset append content)
    {position : Int64} {m' : Machine}
    (hwrite : perform (.fdPwrite fd array count position resultAt) m = (.returned 0, m')) :
    0 ≤ position.toInt ∧ m'.guest.OpenFile fd.toNat path offset append
      (content.overlay position.toInt.toNat
        (contents m.memory (bufferRanges m.memory array.toNat count.toNat))) := by
  have hstep := ok_of_perform rfl hwrite
  obtain ⟨start, hstart, hstep⟩ := (keeps_filePosition _).ok_of_bind hstep
  obtain ⟨list, hlist, hstep⟩ := (keeps_buffers _ _ _).ok_of_bind hstep
  obtain rfl := eq_bufferRanges hlist
  obtain ⟨data, hdata, hstep⟩ := (keeps_gather _ _).ok_of_bind hstep
  obtain ⟨-, rfl⟩ := gather_ok hdata
  obtain ⟨n, t, hguest, hstep⟩ := exists_of_bind hstep
  obtain ⟨g, hrun, rfl⟩ := onGuest_ok hguest
  obtain ⟨_, _, hword, hstore⟩ := exists_of_bind hstep
  obtain ⟨-, rfl, rfl⟩ := word_ok hword
  obtain rfl := storeWord_ok hstore
  rw [eq_of_filePosition hstart, ByteArray.empty_append] at hrun
  refine ⟨?_, (h.writeAt_ok hrun).2⟩
  by_contra hneg
  rw [filePosition, if_neg hneg] at hstart
  cases hstart

/-- A transfer through several buffers is a transfer through one, divided among them in the order
of their addresses. Reading delivers what follows the offset of the file, or a position that is
not negative, up to the sum of the lengths or the end of the file. It stores that, and how much it
was, and nothing else; reading at the offset moves the offset by as much. So what was written from
some buffers at a position is read back into any others that take as many bytes together. -/
theorem vectored_eq_flat (h : m.guest.OpenFile fd.toNat path offset append content) :
    let list := bufferRanges m.memory array.toNat count.toNat
    let total := totalSize Prod.snd list
    (Vectors m.memory array.toNat count.toNat resultAt.toNat →
      (∃ (memory : Memory) (offset' : UInt64),
        perform (.fdRead fd array count resultAt) m =
          (.returned 0,
            ⟨memory, m.guest.rebound fd.toNat (.file path offset' append)⟩) ∧
        Delivered (content.slice offset.toNat total) list resultAt.toNat m.memory memory ∧
        memory.word resultAt.toNat = min total (content.size - offset.toNat) ∧
        offset'.toNat = offset.toNat + min total (content.size - offset.toNat)) ∧
      ∀ position : Int64, 0 ≤ position.toInt → ∃ memory : Memory,
        perform (.fdPread fd array count position resultAt) m =
          (.returned 0, ⟨memory, m.guest⟩) ∧
        Delivered (content.slice position.toInt.toNat total) list resultAt.toNat m.memory memory ∧
        memory.word resultAt.toNat = min total (content.size - position.toInt.toNat)) ∧
    ∀ (position : Int64) (m' : Machine),
      perform (.fdPwrite fd array count position resultAt) m = (.returned 0, m') →
      ∀ (other : Memory) (array' count' resultAt' : UInt32),
        Vectors other array'.toNat count'.toNat resultAt'.toNat →
        let list' := bufferRanges other array'.toNat count'.toNat
        totalSize Prod.snd list' = total →
        ∃ memory : Memory,
          perform (.fdPread fd array' count' position resultAt') ⟨other, m'.guest⟩ =
            (.returned 0, ⟨memory, m'.guest⟩) ∧
          (addresses list').map memory.byte = (addresses list).map m.memory.byte ∧
          memory.word resultAt'.toNat = total := by
  intro list total
  refine ⟨fun hroom => ⟨?_, fun position hposition => ?_⟩, fun position m' hwrite => ?_⟩
  · obtain ⟨memory, hdelivered, hrun⟩ := perform_fdRead h hroom
    refine ⟨memory, _, hrun, hdelivered, ?_, ?_⟩
    · rw [hdelivered.count, Bytes.size_slice]
    · rw [h.toNat_add_slice, Bytes.size_slice]
  · obtain ⟨memory, hdelivered, hrun⟩ := perform_fdPread h hroom hposition
    refine ⟨memory, hrun, hdelivered, ?_⟩
    rw [hdelivered.count, Bytes.size_slice]
  · intro other array' count' resultAt' hroom list' htotal
    obtain ⟨hposition, hopen⟩ := openFile_of_fdPwrite h hwrite
    obtain ⟨memory, hdelivered, hrun⟩ :=
      @perform_fdPread ⟨other, m'.guest⟩ fd array' count' resultAt' _ _ _ _ hopen hroom position
        hposition
    -- the buffers that are read into take exactly what was written
    have hsize : (contents m.memory list).size = total := by
      rw [← Bytes.length_list, list_contents, List.length_map, length_addresses]
    have hread : Bytes.slice (content.overlay position.toInt.toNat (contents m.memory list))
        position.toInt.toNat (totalSize Prod.snd list') = contents m.memory list := by
      rw [htotal, ← hsize]
      exact (Guest.laid_overlay ..).inside
    have hlength : (addresses list').length = (contents m.memory list).size := by
      rw [length_addresses, htotal, hsize]
    rw [hread] at hdelivered
    refine ⟨memory, hrun, ?_, hdelivered.count.trans hsize⟩
    rw [hdelivered.bytes, List.drop_of_length_le (Nat.le_of_eq hlength), List.map_nil,
      List.append_nil, list_contents]

end Calls

/-- A memory with an array of three buffers, one of them empty, and an array of one buffer. -/
def threeBuffers : Memory :=
  let words := [40, 3, 43, 0, 48, 4, 64, 7]
  ((Memory.ofPages 1).put 0 (Bytes.ofList (words.flatMap (Bytes.littleEndian 4)))).put 40
    (Bytes.ofText "xyz")

theorem bufferRanges_threeBuffers :
    bufferRanges threeBuffers 0 3 = [(40, 3), (43, 0), (48, 4)] ∧
      bufferRanges threeBuffers 24 1 = [(64, 7)] := by decide +kernel

theorem wellFormed_threeBuffers : threeBuffers.WellFormed :=
  ((Memory.wellFormed_ofPages 1).put 0 _).put 40 _

theorem vectors_threeBuffers :
    Vectors threeBuffers 0 3 36 ∧ Vectors threeBuffers 24 1 36 := by
  obtain ⟨hthree, hone⟩ := bufferRanges_threeBuffers
  constructor
  · refine ⟨wellFormed_threeBuffers, by decide, by decide, by decide, ?_, ?_⟩ <;>
    · rw [hthree]
      decide
  · refine ⟨wellFormed_threeBuffers, by decide, by decide, by decide, ?_, ?_⟩ <;>
    · rw [hone]
      decide

/-- The end of a file is read into three buffers, the last of which it does not fill. What is
written from them over the file is then read back into a single one. -/
theorem vectored_eq_flat_threeBuffers :
    let m : Machine :=
      ⟨threeBuffers, (Guest.start [("a", .file (Bytes.ofText "abcdefgh"))] {} [] []
        [Preopen.root] .zeros).opened 4 (.file ["a"] 3 false)⟩
    (∃ memory offset',
        perform (.fdRead 4 0 3 36) m =
          (.returned 0, ⟨memory, m.guest.rebound 4 (.file ["a"] offset' false)⟩) ∧
        Delivered (Bytes.ofText "defgh") [(40, 3), (43, 0), (48, 4)] 36 threeBuffers memory ∧
        offset'.toNat = 8) ∧
      ∃ m' memory, perform (.fdPwrite 4 0 3 6 36) m = (.returned 0, m') ∧
        perform (.fdPread 4 24 1 6 36) ⟨threeBuffers, m'.guest⟩ =
          (.returned 0, ⟨memory, m'.guest⟩) ∧
        (addresses [(64, 7)]).map memory.byte = (Bytes.ofText "xyz").list ++ [0, 0, 0, 0] := by
  intro m
  obtain ⟨hthree, hone⟩ := bufferRanges_threeBuffers
  have hopen : m.guest.OpenFile (4 : UInt32).toNat ["a"] 3 false (Bytes.ofText "abcdefgh") :=
    ⟨by decide, rfl, by decide⟩
  have hcode : (perform (.fdPwrite 4 0 3 6 36) m).1 = .returned 0 := by decide +kernel
  have hall := @vectored_eq_flat m 4 0 3 36 _ _ _ _ hopen
  obtain ⟨memory, offset', hread, hdelivered, -, hoffset⟩ := (hall.1 vectors_threeBuffers.1).1
  have hslice : Bytes.slice (Bytes.ofText "abcdefgh") 3
      (totalSize Prod.snd [(40, 3), (43, 0), (48, 4)]) = Bytes.ofText "defgh" := by decide
  cases hwritten : perform (.fdPwrite 4 0 3 6 36) m with
  | mk code m' =>
    rw [hwritten] at hcode
    dsimp only at hcode
    subst hcode
    obtain ⟨memory', hback, hsame, -⟩ := hall.2 6 m' hwritten threeBuffers 24 1 36
      vectors_threeBuffers.2 (by decide +kernel)
    refine ⟨⟨memory, offset', hread, ?_, ?_⟩, m', memory', rfl, hback, ?_⟩
    · rw [← hslice, ← hthree]
      exact hdelivered
    · exact hoffset.trans (by decide +kernel)
    · rw [← hone]
      exact hsame.trans (by decide +kernel)

end StagedSandbox.Wasi
