import StagedSandbox.Bytes
import StagedSandbox.Table

/-!
# Linear memory

A memory has a fixed size and is zero where nothing was stored. It may be large while little of
it is touched, so only the pages that were stored to are kept, and of each page only the bytes up
to the last one stored. The view of a memory is the byte at each address.
-/

namespace StagedSandbox

structure Memory where
  size : Nat
  /-- The bytes of the pages that were stored to. -/
  stored : Table Nat Bytes := []
  deriving DecidableEq

namespace Memory

/-- The number of bytes in a page. -/
def pageSize : Nat := 65536

/-- So many pages of zeros. -/
def ofPages (n : Nat) : Memory := { size := n * pageSize }

/-- The bytes that are kept of a page. -/
def page (m : Memory) (number : Nat) : Bytes := (m.stored.get? number).getD ByteArray.empty

/-- The byte at an address. -/
def byte (m : Memory) (address : Nat) : UInt8 :=
  (m.page (address / pageSize)).list.getD (address % pageSize) 0

/-- A part of a range that lies within one page. -/
structure Piece where
  page : Nat
  /-- Where it starts in the page. -/
  offset : Nat
  /-- Where it starts in the range. -/
  position : Nat
  length : Nat
  deriving DecidableEq, Repr

/-- The number of pages that a range touches. -/
def pageCount (start length : Nat) : Nat :=
  if length = 0 then 0 else (start + length - 1) / pageSize + 1 - start / pageSize

/-- The part of a range in a page that it touches. -/
def piece (start length page : Nat) : Piece :=
  let first := max start (page * pageSize)
  let stop := min (start + length) ((page + 1) * pageSize)
  ⟨page, first - page * pageSize, first - start, stop - first⟩

/-- The parts of a range. -/
def pieces (start length : Nat) : List Piece :=
  (List.range' (start / pageSize) (pageCount start length)).map (piece start length)

/-- The bytes in a range. -/
def read (m : Memory) (start length : Nat) : Bytes :=
  (pieces start length).foldl
    (fun data p => data ++ ((m.page p.page).slice p.offset p.length).resize p.length)
    ByteArray.empty

/-- The bytes in a range that does not leave the memory. -/
def read? (m : Memory) (start length : Nat) : Option Bytes :=
  if start + length ≤ m.size then some (m.read start length) else none

/-- Lay a part of data over what is kept of its page. -/
def storePiece (data : Bytes) (stored : Table Nat Bytes) (p : Piece) : Table Nat Bytes :=
  stored.alter p.page fun old =>
    (old.getD ByteArray.empty).overlay p.offset (data.slice p.position p.length)

/-- Store bytes from an address on. -/
def put (m : Memory) (start : Nat) (data : Bytes) : Memory :=
  { m with stored := (pieces start data.size).foldl (storePiece data) m.stored }

/-! ### Laws -/

@[simp] theorem size_put (m : Memory) (start : Nat) (data : Bytes) :
    (m.put start data).size = m.size := rfl

@[simp] theorem byte_ofPages (n address : Nat) : (ofPages n).byte address = 0 := rfl

@[simp] theorem pieces_zero (start : Nat) : pieces start 0 = [] := rfl

end Memory

end StagedSandbox
