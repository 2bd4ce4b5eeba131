/-!
# Byte strings

Cutting, stretching and overwriting of byte strings, and the little-endian words stored in them.
The view of a byte string is the list `Bytes.list`.
-/

namespace StagedSandbox

/-- A byte string: the content of a file or of a memory. -/
abbrev Bytes := ByteArray

instance : DecidableEq Bytes := ByteArray.instDecidableEq

/-- The sizes of all elements together. -/
def totalSize {α : Type} (size : α → Nat) : List α → Nat
  | [] => 0
  | a :: rest => size a + totalSize size rest

namespace Bytes

/-- Append so many zero bytes, one by one. -/
def pushZeros (n : Nat) (b : Bytes) : Bytes := n.fold (fun _ _ b => b.push 0) b

/-- The number of zero bytes that are appended at once. -/
def blockSize : Nat := 65536

/-- A block of zero bytes. -/
def zeroBlock : Bytes := pushZeros blockSize ByteArray.empty

/-- Append so many zero bytes. -/
def appendZeros (n : Nat) (b : Bytes) : Bytes :=
  pushZeros (n % blockSize) ((n / blockSize).fold (fun _ _ b => b ++ zeroBlock) b)

/-- So many zero bytes. -/
def zeros (n : Nat) : Bytes := appendZeros n (ByteArray.emptyWithCapacity n)

/-- At most `length` bytes from position `start` on. -/
def slice (b : Bytes) (start length : Nat) : Bytes := b.extract start (start + length)

/-- Exactly `length` bytes from position `start` on, if there are so many. -/
def slice? (b : Bytes) (start length : Nat) : Option Bytes :=
  if start + length ≤ b.size then some (b.slice start length) else none

/-- Cut to `n` bytes, or fill up with zeros. -/
def resize (b : Bytes) (n : Nat) : Bytes :=
  if n ≤ b.size then b.extract 0 n
  else appendZeros (n - b.size) (ByteArray.emptyWithCapacity n ++ b)

/-- Lay `data` over the bytes from position `start` on, filling up with zeros before it. -/
def overlay (b : Bytes) (start : Nat) (data : Bytes) : Bytes :=
  if start + data.size ≤ b.size then data.copySlice 0 b start data.size
  else data.copySlice 0 (b.resize (start + data.size)) start data.size

/-- The byte string of a list. -/
def ofList (bytes : List UInt8) : Bytes := bytes.toByteArray

/-- The list of a byte string. -/
def list (b : Bytes) : List UInt8 := b.data.toList

/-- The lowest `width` bytes of a number, lowest first. -/
def littleEndian : Nat → Nat → List UInt8
  | 0, _ => []
  | width + 1, n => UInt8.ofNat n :: littleEndian width (n / 256)

/-- The number whose bytes, lowest first, are given. -/
def ofLittleEndian : List UInt8 → Nat
  | [] => 0
  | b :: rest => b.toNat + 256 * ofLittleEndian rest

/-- The UTF-8 encoding of a text. -/
def ofText (text : String) : Bytes := text.toUTF8

/-- The text that the bytes encode, if they are well-formed UTF-8. -/
def text? (b : Bytes) : Option String := String.fromUTF8? b

/-! ### Laws -/

@[simp] theorem length_littleEndian (width n : Nat) : (littleEndian width n).length = width := by
  induction width generalizing n with
  | zero => rfl
  | succ width ih => simp [littleEndian, ih]

theorem ofLittleEndian_littleEndian (width n : Nat) :
    ofLittleEndian (littleEndian width n) = n % Nat.pow 256 width := by
  change _ = n % 256 ^ width
  induction width generalizing n with
  | zero => simp [littleEndian, ofLittleEndian, Nat.mod_one]
  | succ width ih =>
    have h : (UInt8.ofNat n).toNat = n % 256 := rfl
    rw [littleEndian, ofLittleEndian, ih, h, Nat.pow_succ', Nat.mod_mul]

theorem toList_pushZeros (n : Nat) (b : Bytes) :
    (pushZeros n b).data.toList = b.data.toList ++ List.replicate n 0 := by
  induction n with
  | zero => simp [pushZeros]
  | succ n ih =>
    unfold pushZeros at ih ⊢
    rw [Nat.fold_succ, ByteArray.data_push, Array.toList_push, ih, List.append_assoc,
      ← List.replicate_succ']

private theorem toList_fold_zeroBlock (n : Nat) (b : Bytes) :
    (n.fold (fun _ _ (b : Bytes) => b ++ zeroBlock) b).data.toList =
      b.data.toList ++ List.replicate (n * blockSize) 0 := by
  induction n with
  | zero => simp
  | succ n ih =>
    rw [Nat.fold_succ, ByteArray.data_append, Array.toList_append, ih, zeroBlock,
      toList_pushZeros, List.append_assoc, Nat.succ_mul]
    exact congrArg _ List.replicate_append_replicate

theorem toList_appendZeros (n : Nat) (b : Bytes) :
    (appendZeros n b).data.toList = b.data.toList ++ List.replicate n 0 := by
  rw [appendZeros, toList_pushZeros, toList_fold_zeroBlock, List.append_assoc,
    List.replicate_append_replicate, Nat.div_add_mod']

@[simp] theorem size_appendZeros (n : Nat) (b : Bytes) : (appendZeros n b).size = b.size + n := by
  rw [← ByteArray.size_data, ← Array.length_toList, toList_appendZeros, List.length_append,
    List.length_replicate]
  rfl

@[simp] theorem toList_zeros (n : Nat) : (zeros n).data.toList = List.replicate n 0 :=
  toList_appendZeros n _

@[simp] theorem size_zeros (n : Nat) : (zeros n).size = n := by
  rw [← ByteArray.size_data, ← Array.length_toList, toList_zeros, List.length_replicate]

@[simp] theorem size_resize (b : Bytes) (n : Nat) : (b.resize n).size = n := by
  unfold resize
  split
  · rw [ByteArray.size_extract]; omega
  · have : (ByteArray.emptyWithCapacity n).size = 0 := rfl
    rw [size_appendZeros, ByteArray.size_append, this]; omega

end Bytes

end StagedSandbox
