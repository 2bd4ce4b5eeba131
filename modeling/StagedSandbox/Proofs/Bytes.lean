import Mathlib.Data.List.GetD
import Mathlib.Tactic.Common
import StagedSandbox.Bytes

/-!
# Bytes by position

Byte strings are compared by the byte at each position, zero beyond the end. Cutting, stretching
and overwriting are described by what stands at each position afterwards.
-/

namespace StagedSandbox.Bytes

/-! ### Lists of bytes -/

theorem list_inj {a b : Bytes} : a.list = b.list ↔ a = b := by
  refine ⟨fun h => ?_, fun h => h ▸ rfl⟩
  exact ByteArray.ext (Array.ext' h)

theorem list_append (a b : Bytes) : (a ++ b).list = a.list ++ b.list := by
  simp [list]

theorem list_ofList (bytes : List UInt8) : (ofList bytes).list = bytes := by
  simp [ofList, list]

theorem ofList_list (b : Bytes) : ofList b.list = b :=
  list_inj.1 (list_ofList b.list)

theorem length_list (b : Bytes) : b.list.length = b.size := by
  simp [list]

theorem size_ofList (bytes : List UInt8) : (ofList bytes).size = bytes.length := by
  rw [← length_list, list_ofList]

theorem list_slice (b : Bytes) (start length : Nat) :
    (b.slice start length).list = (b.list.drop start).take length := by
  simp only [slice, list, ByteArray.data_extract, Array.toList_extract, List.extract_eq_take_drop]
  congr 1
  omega

theorem list_resize (b : Bytes) (n : Nat) :
    (b.resize n).list = b.list.take n ++ List.replicate (n - b.size) 0 := by
  rw [resize]
  split
  · next h =>
    have hpad : n - b.size = 0 := by omega
    have hslice := list_slice b 0 n
    rw [slice, Nat.zero_add, List.drop_zero] at hslice
    rw [hslice, hpad, List.replicate_zero, List.append_nil]
  · next h =>
    have htake : b.list.take n = b.list := List.take_of_length_le (by rw [length_list]; omega)
    rw [htake]
    exact toList_appendZeros _ _

theorem list_copySlice (data b : Bytes) (start : Nat) :
    list (data.copySlice 0 b start data.size) =
      b.list.take start ++ data.list ++ b.list.drop (start + data.size) := by
  have hlength : data.data.toList.length = data.size := length_list data
  have hall : data.data.toList.take data.size = data.data.toList :=
    List.take_of_length_le (Nat.le_of_eq hlength)
  have hmin : min data.size data.data.size = data.size := by
    rw [ByteArray.size_data, Nat.min_self]
  simp only [list, ByteArray.copySlice, Array.toList_append, Array.toList_extract,
    List.extract_eq_take_drop, Nat.sub_zero, Nat.zero_add, List.drop_zero, hall, hmin]
  congr 1
  refine List.take_of_length_le (Nat.le_of_eq ?_)
  rw [List.length_drop, Array.length_toList]

/-! ### Positions -/

/-- The byte at a position, zero beyond the end. -/
def byteAt (b : Bytes) (i : Nat) : UInt8 := b.list.getD i 0

theorem byteAt_of_le {b : Bytes} {i : Nat} (h : b.size ≤ i) : b.byteAt i = 0 := by
  rw [byteAt, List.getD_eq_default]
  rwa [length_list]

theorem ext_byteAt {a b : Bytes} (hsize : a.size = b.size)
    (h : ∀ i, i < a.size → a.byteAt i = b.byteAt i) : a = b := by
  rw [← list_inj]
  apply List.ext_getElem (by rw [length_list, length_list, hsize])
  intro i hi hi'
  have hbyte := h i (by rwa [← length_list])
  rwa [byteAt, byteAt, List.getD_eq_getElem _ _ hi, List.getD_eq_getElem _ _ hi'] at hbyte

theorem byteAt_append (a b : Bytes) (i : Nat) :
    (a ++ b).byteAt i = if i < a.size then a.byteAt i else b.byteAt (i - a.size) := by
  unfold byteAt
  rw [list_append]
  split
  · next h => rw [List.getD_append _ _ _ _ (by rwa [length_list])]
  · next h => rw [List.getD_append_right _ _ _ _ (by rw [length_list]; omega), length_list]

theorem byteAt_slice (b : Bytes) (start length i : Nat) :
    (b.slice start length).byteAt i = if i < length then b.byteAt (start + i) else 0 := by
  unfold byteAt
  rw [list_slice, List.getD_eq_getElem?_getD, List.getD_eq_getElem?_getD, List.getElem?_take]
  split
  · rw [List.getElem?_drop]
  · rfl

theorem byteAt_resize (b : Bytes) (n i : Nat) :
    (b.resize n).byteAt i = if i < n then b.byteAt i else 0 := by
  split
  · next h =>
    unfold byteAt
    rw [list_resize]
    by_cases hi : i < b.size
    · rw [List.getD_append _ _ _ _ (by rw [List.length_take, length_list]; omega)]
      rw [List.getD_eq_getElem?_getD, List.getElem?_take, if_pos h, List.getD_eq_getElem?_getD]
    · have hzero : b.list.getD i 0 = 0 := byteAt_of_le (Nat.le_of_not_lt hi)
      rw [hzero, List.getD_append_right _ _ _ _ (by rw [List.length_take, length_list]; omega)]
      rw [List.getD_eq_getElem?_getD]
      exact List.getElem?_getD_replicate_default_eq _ _ _
  · next h => exact byteAt_of_le (by rw [size_resize]; omega)

theorem byteAt_copySlice (data b : Bytes) {start : Nat} (h : start ≤ b.size) (i : Nat) :
    byteAt (data.copySlice 0 b start data.size) i =
      if start ≤ i ∧ i < start + data.size then data.byteAt (i - start) else b.byteAt i := by
  have htake : (b.list.take start).length = start := by rw [List.length_take, length_list]; omega
  unfold byteAt
  rw [list_copySlice, List.append_assoc]
  by_cases hbefore : i < start
  · rw [List.getD_append _ _ _ _ (by omega), if_neg (by omega), List.getD_eq_getElem?_getD,
      List.getElem?_take, if_pos hbefore, List.getD_eq_getElem?_getD]
  · rw [List.getD_append_right _ _ _ _ (by omega), htake]
    by_cases hwithin : i < start + data.size
    · rw [List.getD_append _ _ _ _ (by rw [length_list]; omega), if_pos (by omega)]
    · rw [List.getD_append_right _ _ _ _ (by rw [length_list]; omega), length_list,
        if_neg (by omega), List.getD_eq_getElem?_getD, List.getElem?_drop,
        List.getD_eq_getElem?_getD]
      congr 2
      omega

/-- Laying data over bytes changes the positions of the data alone. -/
theorem byteAt_overlay (b : Bytes) (start : Nat) (data : Bytes) (i : Nat) :
    (b.overlay start data).byteAt i =
      if start ≤ i ∧ i < start + data.size then data.byteAt (i - start) else b.byteAt i := by
  rw [overlay]
  split
  · next h => rw [byteAt_copySlice data b (by omega)]
  · next h =>
    rw [byteAt_copySlice data _ (by rw [size_resize]; omega), byteAt_resize]
    split
    · rfl
    · split
      · rfl
      · next hi => exact (byteAt_of_le (by omega)).symm

theorem resize_zero (b : Bytes) : b.resize 0 = ByteArray.empty := by
  rw [← list_inj, list_resize, Nat.zero_sub]
  rfl

/-- Bytes laid over nothing are all that there is. -/
theorem overlay_empty (data : Bytes) : Bytes.overlay ByteArray.empty 0 data = data := by
  have hdrop : ∀ b : Bytes, b.size ≤ data.size →
      b.list.take 0 ++ data.list ++ b.list.drop (0 + data.size) = data.list := by
    intro b hb
    rw [List.take_zero, List.nil_append, Nat.zero_add,
      List.drop_of_length_le (by rwa [length_list]), List.append_nil]
  rw [← list_inj, overlay]
  split
  · rw [list_copySlice, hdrop _ (Nat.zero_le _)]
  · rw [list_copySlice, hdrop _ (by simp)]

theorem size_copySlice (data b : Bytes) {start : Nat} (h : start + data.size ≤ b.size) :
    (data.copySlice 0 b start data.size).size = b.size := by
  rw [← length_list, list_copySlice, List.length_append, List.length_append, List.length_take,
    List.length_drop, length_list, length_list]
  omega

/-- Laying data over bytes makes them longer only if the data goes beyond their end. -/
theorem size_overlay (b : Bytes) (start : Nat) (data : Bytes) :
    (b.overlay start data).size = max b.size (start + data.size) := by
  rw [overlay]
  split
  · next h => rw [size_copySlice data b h, Nat.max_eq_left h]
  · next h =>
    rw [size_copySlice data _ (Nat.le_of_eq (size_resize ..).symm), size_resize]
    exact (Nat.max_eq_right (by omega)).symm

/-- Data that is laid over bytes at once can be laid over them in two parts. -/
theorem overlay_overlay (b : Bytes) (start : Nat) (first second : Bytes) :
    (b.overlay start first).overlay (start + first.size) second =
      b.overlay start (first ++ second) := by
  apply ext_byteAt
  · rw [size_overlay, size_overlay, size_overlay, ByteArray.size_append]
    omega
  · intro i _
    rw [byteAt_overlay, byteAt_overlay, byteAt_overlay, byteAt_append, ByteArray.size_append]
    by_cases hsecond : start + first.size ≤ i ∧ i < start + first.size + second.size
    · rw [if_pos hsecond, if_pos (by omega), if_neg (by omega), Nat.sub_add_eq]
    · rw [if_neg hsecond]
      by_cases hfirst : start ≤ i ∧ i < start + first.size
      · rw [if_pos hfirst, if_pos (by omega), if_pos (by omega)]
      · rw [if_neg hfirst, if_neg (by omega)]

/-- Data laid over the end is put after the bytes. -/
theorem overlay_size (b data : Bytes) : b.overlay b.size data = b ++ data := by
  apply ext_byteAt
  · rw [size_overlay, ByteArray.size_append]
    omega
  · intro i _
    rw [byteAt_overlay, byteAt_append]
    by_cases hi : i < b.size
    · rw [if_neg (by omega), if_pos hi]
    · rw [if_neg hi]
      split
      · rfl
      · rw [byteAt_of_le (by omega), byteAt_of_le (by omega)]

theorem size_slice (b : Bytes) (start length : Nat) :
    (b.slice start length).size = min length (b.size - start) := by
  rw [← length_list, list_slice, List.length_take, List.length_drop, length_list]

theorem slice_of_size_le {b : Bytes} {start : Nat} (h : b.size ≤ start) (length : Nat) :
    b.slice start length = ByteArray.empty := by
  rw [← list_inj, list_slice, List.drop_of_length_le (by rwa [length_list]), List.take_nil]
  rfl

@[simp] theorem slice_zero (b : Bytes) (start : Nat) : b.slice start 0 = ByteArray.empty := by
  rw [← list_inj, list_slice, List.take_zero]
  rfl

theorem slice_zero_size (b : Bytes) : b.slice 0 b.size = b := by
  rw [← list_inj, list_slice, List.drop_zero, ← length_list, List.take_length]

/-- More bytes at the end do not change the parts before them. -/
theorem slice_append_of_le {a : Bytes} {start length : Nat} (h : start + length ≤ a.size)
    (b : Bytes) : (a ++ b).slice start length = a.slice start length := by
  have hright : b.extract (start - a.size) (start + length - a.size) = ByteArray.empty := by
    rw [ByteArray.extract_eq_empty_iff]
    omega
  rw [slice, slice, ByteArray.extract_append, hright, ByteArray.append_empty]

/-- A part and all that follows it. -/
theorem slice_append_slice (b : Bytes) (start length : Nat) :
    b.slice start length ++ b.slice (start + (b.slice start length).size) b.size =
      b.slice start b.size := by
  have hsize : (b.slice start length).size = ((b.list.drop start).take length).length := by
    rw [← length_list, list_slice]
  have hlength : (b.list.drop start).length ≤ b.size := by
    rw [List.length_drop, length_list]
    omega
  have hrest : ∀ n, ((b.list.drop start).drop n).take b.size = (b.list.drop start).drop n :=
    fun n => List.take_of_length_le (by rw [List.length_drop]; omega)
  rw [← list_inj, list_append, list_slice, list_slice, list_slice, hsize, ← List.drop_drop, hrest,
    List.take_of_length_le hlength, List.length_take]
  obtain hle | hle := Nat.le_total length (b.list.drop start).length
  · rw [Nat.min_eq_left hle, List.take_append_drop]
  · rw [Nat.min_eq_right hle, List.take_of_length_le hle, List.drop_length, List.append_nil]

/-! ### Bytes in parts -/

/-- Byte strings one behind the other. -/
def concat : List Bytes → Bytes
  | [] => ByteArray.empty
  | part :: rest => part ++ concat rest

@[simp] theorem concat_nil : concat [] = ByteArray.empty := rfl

@[simp] theorem concat_cons (part : Bytes) (rest : List Bytes) :
    concat (part :: rest) = part ++ concat rest := rfl

/-- A part, and a part that stands behind it. -/
theorem slice_add (b : Bytes) (start first second : Nat) :
    b.slice start first ++ b.slice (start + (b.slice start first).size) second =
      b.slice start (first + second) := by
  rw [← list_inj, list_append, list_slice, list_slice, list_slice, size_slice, ← length_list,
    List.take_add, ← List.drop_drop]
  congr 1
  obtain hle | hle := Nat.le_total first (b.list.length - start)
  · rw [Nat.min_eq_left hle]
  · rw [Nat.min_eq_right hle, List.drop_drop, List.drop_drop,
      List.drop_of_length_le (by omega), List.drop_of_length_le (by omega)]

end StagedSandbox.Bytes
