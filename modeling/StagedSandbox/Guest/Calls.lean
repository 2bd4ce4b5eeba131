import StagedSandbox.Guest.Basic

/-!
# System calls

The calls by which a running program acts on what it can reach. Each is a step of the guest; a
file keeps its offset in the descriptor, and a descriptor opened for appending moves to the end of
the file before each write.
-/

namespace StagedSandbox

/-- How a path is to be opened. -/
structure OpenFlags where
  create : Bool := false
  directory : Bool := false
  exclusive : Bool := false
  truncate : Bool := false
  append : Bool := false
  write : Bool := false
  deriving DecidableEq, Repr

/-- Where a seek counts from. -/
inductive Whence where
  | fromStart
  | fromCurrent
  | fromEnd
  deriving DecidableEq, Repr

namespace Guest

/-- Open a path beneath a directory. A missing file may be made, and an existing one emptied,
before a descriptor is taken. -/
def openPath (dirFd : Nat) (text : String) (flags : OpenFlags) : Action Nat := do
  let (path, scope) ← locate dirFd text
  match (← get).fs.stat path with
  | .ok found =>
    if flags.create && flags.exclusive then throw .exist
    if found.isDirectory then
      if flags.write || flags.truncate then throw .isdir
      allocate (.dir path scope)
    else
      if flags.directory then throw .notdir
      if flags.truncate then onFs (Fs.truncate path 0)
      allocate (.file path 0 flags.append)
  | .error .notFound =>
    if flags.create && !flags.directory then
      onFs (Fs.write path ByteArray.empty .overwrite)
      allocate (.file path 0 flags.append)
    else throw .noent
  | .error e => throw (.ofObstacle e)

/-- Read at most `length` bytes at the offset of a descriptor, and move it on. -/
def read (fd length : Nat) : Action Bytes := do
  match ← descriptor fd with
  | .stdin => return ByteArray.empty
  | .file path offset append =>
    let data ← askFs (·.readAt path offset.toNat length)
    setDescriptor fd (.file path (offset + UInt64.ofNat data.size) append)
    return data
  | .preopen .. | .dir .. => throw .isdir
  | .stdout | .stderr => throw .badf

/-- Write bytes to a stream, or to a file at the offset of its descriptor, and move it on. -/
def write (fd : Nat) (data : Bytes) : Action Nat := do
  match ← descriptor fd with
  | .stdout =>
    writeOut data
    return data.size
  | .stderr =>
    writeErr data
    return data.size
  | .file path offset append =>
    let start ←
      if append then do
        let size := (← askFs (·.stat path)).length
        setDescriptor fd (.file path (UInt64.ofNat size) append)
        pure (UInt64.ofNat size)
      else pure offset
    onFs (Fs.writeAt path start.toNat data)
    setDescriptor fd (.file path (start + UInt64.ofNat data.size) append)
    return data.size
  | .preopen .. | .dir .. => throw .isdir
  | .stdin => throw .badf

/-- A write that succeeds has written all of the bytes. -/
theorem eq_size_of_write {fd n : Nat} {data : Bytes} {g g' : Guest}
    (h : write fd data g = .ok n g') : n = data.size := by
  have hbind : ∀ {α : Type} {x : Action α} {f : α → Action Nat} {s : Guest},
      (x >>= f) s = .ok n g' → ∃ a t, f a t = .ok n g' := by
    intro α x f s h
    simp only [bind, EStateM.bind] at h
    split at h
    · exact ⟨_, _, h⟩
    · cases h
  have hpure {m : Nat} {s : Guest} (h : (pure m : Action Nat) s = .ok n g') : n = m := by
    cases h
    rfl
  obtain ⟨d, _, h⟩ := hbind h
  cases d with
  | stdout | stderr =>
    obtain ⟨_, _, h⟩ := hbind h
    exact hpure h
  | file path offset append =>
    cases append with
    | false =>
      iterate 3 obtain ⟨_, _, h⟩ := hbind h
      exact hpure h
    | true =>
      iterate 5 obtain ⟨_, _, h⟩ := hbind h
      exact hpure h
  | stdin | preopen | dir => cases h

/-- Read at most `length` bytes of a file from a given position; the descriptor stays. -/
def readAt (fd length start : Nat) : Action Bytes := do
  match ← descriptor fd with
  | .file path _ _ => askFs (·.readAt path start length)
  | .stdin | .stdout | .stderr => throw .spipe
  | .preopen .. | .dir .. => throw .isdir

/-- Write bytes to a file at a given position; the descriptor stays. -/
def writeAt (fd : Nat) (data : Bytes) (start : Nat) : Action Nat := do
  match ← descriptor fd with
  | .file path _ _ =>
    onFs (Fs.writeAt path start data)
    return data.size
  | .stdin | .stdout | .stderr => throw .spipe
  | .preopen .. | .dir .. => throw .isdir

/-- Move the offset of a file descriptor. Offsets are counted in signed words of 64 bits: one
that would be negative or too large is refused. -/
def seek (fd : Nat) (delta : Int64) (whence : Whence) : Action UInt64 := do
  match ← descriptor fd with
  | .file path offset append =>
    let base : Int64 ←
      match whence with
      | .fromStart => pure 0
      | .fromCurrent => pure offset.toInt64
      | .fromEnd => pure (UInt64.ofNat (← askFs (·.stat path)).length).toInt64
    let target := base.toInt + delta.toInt
    if 0 ≤ target ∧ target ≤ Int64.maxValue.toInt then
      let moved := UInt64.ofNat target.toNat
      setDescriptor fd (.file path moved append)
      return moved
    else throw .inval
  | .stdin | .stdout | .stderr => throw .spipe
  | .preopen .. | .dir .. => throw .badf

/-- Close a descriptor. -/
def close (fd : Nat) : Action Unit := do
  let _ ← descriptor fd
  modify fun p => { p with descriptors := p.descriptors.erase fd }

/-- Cut a file, or fill it up with zeros. -/
def truncate (fd size : Nat) : Action Unit := do
  match ← descriptor fd with
  | .file path _ _ => onFs (Fs.truncate path size)
  | .preopen .. | .dir .. => throw .isdir
  | .stdin | .stdout | .stderr => throw .inval

/-- What is known about a path of the file system. -/
def statusAt (path : Path) : Action FileStatus := do
  let found ← askFs (·.stat path)
  return ⟨if found.isDirectory then .directory else .regularFile, found.length⟩

/-- What is known about a descriptor. -/
def fdStatus (fd : Nat) : Action FileStatus := do
  match ← descriptor fd with
  | .stdin | .stdout | .stderr => return ⟨.unknown, 0⟩
  | .preopen _ path | .dir path _ | .file path _ _ => statusAt path

/-- What is known about a path beneath a directory. -/
def pathStatus (dirFd : Nat) (text : String) : Action FileStatus := do
  let (path, _) ← locate dirFd text
  statusAt path

/-- The names in a directory, with what each stands for. -/
def readDir (fd : Nat) : Action (List (String × FileType)) := do
  let (path, _) ← directory fd
  let names ← askFs (·.list path)
  names.mapM fun name => do
    let status ← statusAt (path.follow name)
    return (name, status.fileType)

/-- Make a directory. -/
def makeDir (dirFd : Nat) (text : String) : Action Unit := do
  let (path, _) ← locate dirFd text
  onFs (Fs.makeDir path)

/-- Remove a file. -/
def removeFile (dirFd : Nat) (text : String) : Action Unit := do
  let (path, _) ← locate dirFd text
  onFs (Fs.removeFile path)

/-- Remove an empty directory. -/
def removeDir (dirFd : Nat) (text : String) : Action Unit := do
  let (path, _) ← locate dirFd text
  onFs (Fs.removeDir path)

/-- Move what stands at a path beneath one directory to a path beneath another. -/
def move (fromFd : Nat) (source : String) (toFd : Nat) (goal : String) : Action Unit := do
  let (source, _) ← locate fromFd source
  let (goal, _) ← locate toFd goal
  fun p =>
    match Fs.move source goal p.fs with
    | .ok a fs => .ok a { p with fs }
    | .error e fs => .error (.ofObstacle e.obstacle) { p with fs }

/-- So many random bytes. -/
def random (length : Nat) : Action Bytes := fun p =>
  .ok (p.entropy.take length) { p with entropy := p.entropy.skip length }

/-- The time that every clock shows: there is no clock in here. -/
def clock : Nat := 0

/-- The later of two preopened directories unless the former has the longer path. -/
def longer (best next : Nat × Path) : Nat × Path :=
  if best.2.length ≤ next.2.length then next else best

/-- The preopened directory that covers a path, and the text of the path beneath it. Of several
the one with the longest path counts, of equally long ones the highest descriptor. -/
def resolve (p : Guest) (text : String) : Except Errno (Nat × String) :=
  match Path.parse? text with
  | none => .error .inval
  | some path =>
    match p.preopens.filter fun preopen => preopen.2.isPrefixOf path with
    | [] => .error .notcapable
    | first :: rest =>
      let (fd, guest) := rest.foldl longer first
      let below := path.drop guest.length
      .ok (fd, if below = [] then "." else "/".intercalate below)

/-- The preopened directory that covers a path, and the text of the path beneath it. -/
def target (text : String) : Action (Nat × String) := fun p =>
  match p.resolve text with
  | .ok found => .ok found p
  | .error e => .error e p

end Guest

/-- A system call with its arguments. -/
inductive SystemCall where
  | arguments
  | environment
  | preopens
  | resolve (path : String)
  | openPath (dirFd : Nat) (path : String) (flags : OpenFlags)
  | read (fd length : Nat)
  | write (fd : Nat) (data : Bytes)
  | readAt (fd length start : Nat)
  | writeAt (fd : Nat) (data : Bytes) (start : Nat)
  | seek (fd : Nat) (delta : Int64) (whence : Whence)
  | close (fd : Nat)
  | truncate (fd size : Nat)
  | makeDir (dirFd : Nat) (path : String)
  | removeFile (dirFd : Nat) (path : String)
  | removeDir (dirFd : Nat) (path : String)
  | move (fromFd : Nat) (source : String) (toFd : Nat) (goal : String)
  | fdStatus (fd : Nat)
  | pathStatus (dirFd : Nat) (path : String)
  | readDir (fd : Nat)
  | random (length : Nat)
  | clock (id : Nat)
  | isTerminal (fd : Nat)
  | stop (stop : Stop)

namespace Guest

/-- Perform a system call. A request to end is answered, and ending is up to the program. -/
def perform : SystemCall → Action Reply
  | .arguments => return .arguments (← get).arguments
  | .environment => return .environment (← get).environment
  | .preopens => return .preopens (← get).preopens
  | .resolve path => do
    let (fd, rest) ← target path
    return .target fd rest
  | .openPath dirFd path flags => return .descriptor (← openPath dirFd path flags)
  | .read fd length => return .data (← read fd length)
  | .write fd data => return .count (← write fd data)
  | .readAt fd length start => return .data (← readAt fd length start)
  | .writeAt fd data start => return .count (← writeAt fd data start)
  | .seek fd delta whence => return .position (← seek fd delta whence)
  | .close fd => do close fd; return .done
  | .truncate fd size => do truncate fd size; return .done
  | .makeDir dirFd path => do makeDir dirFd path; return .done
  | .removeFile dirFd path => do removeFile dirFd path; return .done
  | .removeDir dirFd path => do removeDir dirFd path; return .done
  | .move fromFd source toFd goal => do move fromFd source toFd goal; return .done
  | .fdStatus fd => return .status (← fdStatus fd)
  | .pathStatus dirFd path => return .status (← pathStatus dirFd path)
  | .readDir fd => return .entries (← readDir fd)
  | .random length => return .count (← random length).size
  | .clock _ => return .time clock
  | .isTerminal _ => return .isTerminal false
  | .stop stop => return .stop stop

/-- Perform a system call, and give the outcome and the guest as it is afterwards. -/
def call (p : Guest) (c : SystemCall) : Except Errno Reply × Guest :=
  match perform c p with
  | .ok reply p => (.ok reply, p)
  | .error e p => (.error e, p)

/-- Perform system calls one after the other, whatever they answer. -/
def run (p : Guest) : List SystemCall → List (Except Errno Reply) × Guest
  | [] => ([], p)
  | c :: rest =>
    let (reply, p) := p.call c
    let (replies, p) := run p rest
    (reply :: replies, p)

end Guest

end StagedSandbox
