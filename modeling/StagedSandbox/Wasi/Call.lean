import StagedSandbox.Wasi.Machine

/-!
# Calls of the preview 1 interface

The functions that a module imports. Each decodes its arguments against the memory, performs
system calls on the guest, and stores the results; it answers zero or an error number. Ending the
program is no answer: `proc_exit` and `proc_raise` stop the module.

All functions but these two, `sched_yield` and `poll_oneoff` need the memory, and fail if the
module does not export it.
-/

namespace StagedSandbox.Wasi

/-- A call with its arguments. Flags without effect are left out. -/
inductive Call where
  | argsGet (table buffer : UInt32)
  | argsSizesGet (countAt sizeAt : UInt32)
  | environGet (table buffer : UInt32)
  | environSizesGet (countAt sizeAt : UInt32)
  | clockResGet (resultAt : UInt32)
  | clockTimeGet (resultAt : UInt32)
  | randomGet (buffer length : UInt32)
  | fdWrite (fd array count resultAt : UInt32)
  | fdPwrite (fd array count : UInt32) (start : Int64) (resultAt : UInt32)
  | fdRead (fd array count resultAt : UInt32)
  | fdPread (fd array count : UInt32) (start : Int64) (resultAt : UInt32)
  | fdSeek (fd : UInt32) (delta : Int64) (whence resultAt : UInt32)
  | fdTell (fd resultAt : UInt32)
  | fdClose (fd : UInt32)
  | fdSync (fd : UInt32)
  | fdFdstatGet (fd resultAt : UInt32)
  | fdFilestatGet (fd resultAt : UInt32)
  | fdFilestatSetSize (fd : UInt32) (size : Int64)
  | fdPrestatGet (fd resultAt : UInt32)
  | fdPrestatDirName (fd buffer length : UInt32)
  | fdReaddir (fd buffer length : UInt32) (cookie : Int64) (usedAt : UInt32)
  | pathOpen (dirFd path length openFlags : UInt32) (rights : UInt64) (fdFlags resultAt : UInt32)
  | pathFilestatGet (dirFd path length resultAt : UInt32)
  | pathCreateDirectory (dirFd path length : UInt32)
  | pathUnlinkFile (dirFd path length : UInt32)
  | pathRemoveDirectory (dirFd path length : UInt32)
  | pathRename (fromFd source sourceLength toFd goal goalLength : UInt32)
  | procExit (code : Int32)
  | procRaise (signal : Int32)
  | schedYield
  | pollOneoff
  deriving DecidableEq, Repr

/-- How a call ends. -/
inductive Outcome where
  /-- The call returns an error number, or zero. -/
  | returned (code : Nat)
  /-- The program has ended itself. -/
  | stopped (stop : Stop)
  deriving DecidableEq, Repr

/-- Why a call fails that needs the memory of a module that exports none. -/
def noMemoryMessage : String := "module does not export its linear memory as `memory`"

/-- A file position, which may not be negative. -/
def filePosition (n : Int64) : Step Nat :=
  if 0 ≤ n.toInt then pure n.toInt.toNat else throw .inval

/-- The origin that a number stands for. -/
def whence (n : UInt32) : Step Whence :=
  if n = 0 then pure .fromStart
  else if n = 1 then pure .fromCurrent
  else if n = 2 then pure .fromEnd
  else throw .inval

/-- The way of opening that three sets of flags stand for. -/
def openFlags (flags : UInt32) (rights : UInt64) (fdFlags : UInt32) : OpenFlags where
  create := flags &&& 1 ≠ 0
  directory := flags &&& 2 ≠ 0
  exclusive := flags &&& 4 ≠ 0
  truncate := flags &&& 8 ≠ 0
  append := fdFlags &&& 1 ≠ 0
  write := rights &&& 64 ≠ 0

/-- The arguments in the environment's written form. -/
def environTexts (guest : Guest) : List String :=
  guest.environment.map fun entry => entry.1 ++ "=" ++ entry.2

/-- The path that a program sees for a preopened directory. -/
def preopenPath (fd : Nat) : Step String := do
  match (← askGuest (·.preopens)).lookup fd with
  | some guest => return guest.render
  | none => throw .badf

/-- The record of a descriptor: its type, and all rights. -/
def descriptorRecord (status : FileStatus) : Bytes :=
  Bytes.ofList (status.fileType.number :: List.replicate 7 0 ++ List.replicate 16 0xff)

/-- The record of a file: its type, one link, its size, and three times. -/
def fileRecord (status : FileStatus) : Bytes :=
  Bytes.ofList <|
    List.replicate 16 0 ++ status.fileType.number :: List.replicate 7 0 ++
      Bytes.littleEndian 8 1 ++ Bytes.littleEndian 8 status.size ++
      (List.replicate 3 (Bytes.littleEndian 8 Guest.clock)).flatten

/-- The record of a preopened directory: a tag of zero, and the length of its path. -/
def preopenRecord (length : Nat) : Bytes :=
  Bytes.ofList (Bytes.littleEndian 4 0 ++ Bytes.littleEndian 4 length)

/-- The record of a directory entry: the number of the next one, which also serves as its own
serial number, the length of its name, its type, and its name. -/
def entryRecord (next : Nat) (name : String) (fileType : FileType) : Bytes :=
  let data := Bytes.ofText name
  Bytes.ofList
      (Bytes.littleEndian 8 next ++ Bytes.littleEndian 8 next ++ Bytes.littleEndian 4 data.size ++
        [fileType.number, 0, 0, 0]) ++
    data

/-- Append the records of numbered directory entries, up to the first that fills a buffer of the
given length. -/
def listing (length : Nat) (soFar : Bytes) : List ((String × FileType) × Nat) → Step Bytes
  | [] => return soFar
  | ((name, fileType), index) :: rest => do
    let _ ← word name.utf8ByteSize
    let records := soFar ++ entryRecord (index + 1) name fileType
    if length ≤ records.size then return records
    listing length records rest

/-- What a call does that needs the memory. -/
def memoryStep : Call → Step Unit
  | .argsGet table buffer => do
    storeTexts table.toNat 0 buffer.toNat (← askGuest (·.arguments))
  | .argsSizesGet countAt sizeAt => do
    storeTextSizes countAt.toNat sizeAt.toNat (← askGuest (·.arguments))
  | .environGet table buffer => do
    storeTexts table.toNat 0 buffer.toNat (← askGuest environTexts)
  | .environSizesGet countAt sizeAt => do
    storeTextSizes countAt.toNat sizeAt.toNat (← askGuest environTexts)
  | .clockResGet resultAt => storeLong resultAt.toNat Guest.clock
  | .clockTimeGet resultAt => storeLong resultAt.toNat Guest.clock
  | .randomGet buffer length => do
    checkRange buffer.toNat length.toNat
    store buffer.toNat (← onGuest (Guest.random length.toNat))
  | .fdWrite fd array count resultAt => do
    let data ← gather ByteArray.empty (← buffers array.toNat 0 count.toNat)
    let n ← onGuest (Guest.write fd.toNat data)
    storeWord resultAt.toNat (← word n)
  | .fdPwrite fd array count start resultAt => do
    let start ← filePosition start
    let data ← gather ByteArray.empty (← buffers array.toNat 0 count.toNat)
    let n ← onGuest (Guest.writeAt fd.toNat data start)
    storeWord resultAt.toNat (← word n)
  | .fdRead fd array count resultAt => do
    let reader := fun (_ length : Nat) => Guest.read fd.toNat length
    let n ← scatter reader 0 (← buffers array.toNat 0 count.toNat)
    storeWord resultAt.toNat (← word n)
  | .fdPread fd array count start resultAt => do
    let start ← filePosition start
    let reader := fun total length => Guest.readAt fd.toNat length (start + total)
    let n ← scatter reader 0 (← buffers array.toNat 0 count.toNat)
    storeWord resultAt.toNat (← word n)
  | .fdSeek fd delta origin resultAt => do
    let origin ← whence origin
    let position ← onGuest (Guest.seek fd.toNat delta origin)
    storeLong resultAt.toNat position.toNat
  | .fdTell fd resultAt => do
    let position ← onGuest (Guest.seek fd.toNat 0 .fromCurrent)
    storeLong resultAt.toNat position.toNat
  | .fdClose fd => onGuest (Guest.close fd.toNat)
  | .fdSync fd => do let _ ← onGuest (Guest.fdStatus fd.toNat)
  | .fdFdstatGet fd resultAt => do
    let status ← onGuest (Guest.fdStatus fd.toNat)
    store resultAt.toNat (descriptorRecord status)
  | .fdFilestatGet fd resultAt => do
    let status ← onGuest (Guest.fdStatus fd.toNat)
    store resultAt.toNat (fileRecord status)
  | .fdFilestatSetSize fd size => do
    let size ← filePosition size
    onGuest (Guest.truncate fd.toNat size)
  | .fdPrestatGet fd resultAt => do
    let path ← preopenPath fd.toNat
    store resultAt.toNat (Bytes.zeros 8)
    store resultAt.toNat (preopenRecord (← word path.utf8ByteSize))
  | .fdPrestatDirName fd buffer length => do
    let path ← preopenPath fd.toNat
    store buffer.toNat ((Bytes.ofText path).slice 0 length.toNat)
  | .fdReaddir fd buffer length cookie usedAt => do
    let index ← filePosition cookie
    let entries ← onGuest (Guest.readDir fd.toNat)
    let records ← listing length.toNat ByteArray.empty (entries.zipIdx.drop index)
    let stored := records.slice 0 length.toNat
    store buffer.toNat stored
    storeWord usedAt.toNat stored.size
  | .pathOpen dirFd path length flags rights fdFlags resultAt => do
    let path ← loadText path.toNat length.toNat
    let fd ← onGuest (Guest.openPath dirFd.toNat path (openFlags flags rights fdFlags))
    storeWord resultAt.toNat fd
  | .pathFilestatGet dirFd path length resultAt => do
    let path ← loadText path.toNat length.toNat
    let status ← onGuest (Guest.pathStatus dirFd.toNat path)
    store resultAt.toNat (fileRecord status)
  | .pathCreateDirectory dirFd path length => do
    let path ← loadText path.toNat length.toNat
    onGuest (Guest.makeDir dirFd.toNat path)
  | .pathUnlinkFile dirFd path length => do
    let path ← loadText path.toNat length.toNat
    onGuest (Guest.removeFile dirFd.toNat path)
  | .pathRemoveDirectory dirFd path length => do
    let path ← loadText path.toNat length.toNat
    onGuest (Guest.removeDir dirFd.toNat path)
  | .pathRename fromFd source sourceLength toFd goal goalLength => do
    let source ← loadText source.toNat sourceLength.toNat
    let goal ← loadText goal.toNat goalLength.toNat
    onGuest (Guest.move fromFd.toNat source toFd.toNat goal)
  | .procExit _ | .procRaise _ | .schedYield | .pollOneoff => pure ()

/-- Perform a call of a module that exports its memory. -/
def perform (call : Call) (m : Machine) : Outcome × Machine :=
  match call with
  | .procExit code => (.stopped (.exit code), m)
  | .procRaise signal => (.stopped (.kill signal), m)
  | .schedYield => (.returned 0, m)
  | .pollOneoff => (.returned Errno.notsup.number, m)
  | call =>
    match memoryStep call m with
    | .ok _ m => (.returned 0, m)
    | .error e m => (.returned e.number, m)

/-- How a call ends when the module exports no memory, unless it needs one; it has no effect. -/
def outcomeWithoutMemory : Call → Option Outcome
  | .procExit code => some (.stopped (.exit code))
  | .procRaise signal => some (.stopped (.kill signal))
  | .schedYield => some (.returned 0)
  | .pollOneoff => some (.returned Errno.notsup.number)
  | _ => none

/-- Perform a call of a module that exports no memory. -/
def performWithoutMemory (call : Call) : Except String Outcome :=
  match outcomeWithoutMemory call with
  | some outcome => .ok outcome
  | none => .error noMemoryMessage

end StagedSandbox.Wasi
