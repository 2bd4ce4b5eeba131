import StagedSandbox.Guest.Calls
import StagedSandbox.Memory

/-!
# Machines

A module of the preview 1 interface works on a guest and on its linear memory. Addresses and
lengths are words of 32 bits; an access that leaves the memory faults and changes nothing.
-/

namespace StagedSandbox.Wasi

/-- What a module works on: its linear memory, and the guest behind its imports. -/
structure Machine where
  memory : Memory
  guest : Guest

/-- A step on a machine; what it leaves behind counts also when it fails. -/
abbrev Step (α : Type) := EStateM Errno Machine α

/-- Act on the guest alone. -/
def onGuest {α : Type} (action : Guest.Action α) : Step α := fun m =>
  match action m.guest with
  | .ok a guest => .ok a { m with guest }
  | .error e guest => .error e { m with guest }

/-- Ask about the guest. -/
def askGuest {α : Type} (question : Guest → α) : Step α := fun m => .ok (question m.guest) m

/-- The bytes in a range of memory. -/
def load (start length : Nat) : Step Bytes := fun m =>
  match m.memory.read? start length with
  | some data => .ok data m
  | none => .error .fault m

/-- Refuse a range that leaves the memory. -/
def checkRange (start length : Nat) : Step Unit := fun m =>
  if start + length ≤ m.memory.size then .ok () m else .error .fault m

/-- Store bytes at an address. -/
def store (start : Nat) (data : Bytes) : Step Unit := do
  checkRange start data.size
  modify fun m => { m with memory := m.memory.put start data }

/-- The word at an address. -/
def loadWord (start : Nat) : Step Nat := do
  return Bytes.ofLittleEndian (← load start 4).list

/-- Store a word of 32 bits. -/
def storeWord (start n : Nat) : Step Unit := store start (Bytes.ofList (Bytes.littleEndian 4 n))

/-- Store a word of 64 bits. -/
def storeLong (start n : Nat) : Step Unit := store start (Bytes.ofList (Bytes.littleEndian 8 n))

/-- An address further on, which has to fit a word. -/
def advance (start distance : Nat) : Step Nat :=
  if start + distance < UInt32.size then pure (start + distance) else throw .fault

/-- A length that has to fit a word. -/
def word (n : Nat) : Step Nat := if n < UInt32.size then pure n else throw .inval

/-- The text in a range of memory. -/
def loadText (start length : Nat) : Step String := do
  match (← load start length).text? with
  | some text => return text
  | none => throw .ilseq

/-- The address and length of each buffer in an array of so many, from the given index on. -/
def buffers (array index : Nat) : Nat → Step (List (Nat × Nat))
  | 0 => return []
  | n + 1 => do
    let entry ← advance array (8 * index)
    let start ← loadWord entry
    let length ← loadWord (← advance entry 4)
    return (start, length) :: (← buffers array (index + 1) n)

/-- The contents of buffers, one after the other. -/
def gather (soFar : Bytes) : List (Nat × Nat) → Step Bytes
  | [] => return soFar
  | (start, length) :: rest => do gather (soFar ++ (← load start length)) rest

/-- Fill buffers in turn from a reader that is told how much was read before, and stop at the
first buffer that is not filled. Answers how much was read. -/
def scatter (reader : Nat → Nat → Guest.Action Bytes) (total : Nat) :
    List (Nat × Nat) → Step Nat
  | [] => return total
  | (start, length) :: rest => do
    checkRange start length
    let data ← onGuest (reader total length)
    store start data
    if data.size < length then return total + data.size
    scatter reader (total + data.size) rest

/-- Store texts back to back, each with a zero byte after it, and their addresses in a table,
from the given index on. -/
def storeTexts (table index buffer : Nat) : List String → Step Unit
  | [] => return
  | text :: rest => do
    let data := Bytes.ofText text
    storeWord (← advance table (4 * index)) buffer
    let _ ← word data.size
    store buffer (data.push 0)
    storeTexts table (index + 1) (← advance buffer (data.size + 1)) rest

/-- Store how many texts there are, and how many bytes they take with a zero byte after each. -/
def storeTextSizes (countAt sizeAt : Nat) (texts : List String) : Step Unit := do
  storeWord countAt (← word texts.length)
  storeWord sizeAt (← word (totalSize (fun text => text.utf8ByteSize + 1) texts))

end StagedSandbox.Wasi
