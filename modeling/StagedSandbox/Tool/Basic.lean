import StagedSandbox.Stage.Signal

/-!
# What tools share

Compiler and linker are native programs. They reach files by absolute paths, which they resolve
to a preopened directory, and report what goes wrong on the error stream before they exit with
code one.
-/

namespace StagedSandbox.Tool

/-- The number of bytes that are read at once. -/
def chunkSize : Nat := 4096

/-- The number of bytes behind the offset of an open file. -/
def bytesLeft (fd : Nat) (g : Guest) : Nat :=
  match g.descriptors.get? fd with
  | some (.file path offset _) =>
    match g.fs.read path with
    | .ok content => content.size - offset.toNat
    | .error _ => 0
  | _ => 0

/-- Read an open file to its end, chunk by chunk. After each chunk fewer bytes are left, unless
there are so many of them that the offset has begun anew. -/
def readChunks (fd : Nat) (soFar : Bytes) : Guest.Action Bytes := fun g =>
  match Guest.read fd chunkSize g with
  | .error e g' => .error e g'
  | .ok data g' =>
    if data.size = 0 then .ok soFar g'
    else if bytesLeft fd g' < bytesLeft fd g then readChunks fd (soFar ++ data) g'
    else .ok (soFar ++ data) g'
termination_by g => bytesLeft fd g

/-- Write the data from a position on, in as many steps as that takes. -/
def writeChunks (fd : Nat) (data : Bytes) (written : Nat) : Guest.Action Unit := fun g =>
  if _hleft : written < data.size then
    match _hwrite : Guest.write fd (data.extract written data.size) g with
    | .error e g' => .error e g'
    | .ok n g' => writeChunks fd data (written + n) g'
  else .ok () g
termination_by data.size - written
decreasing_by
  have hn := Guest.eq_size_of_write _hwrite
  rw [ByteArray.size_extract] at hn
  omega

/-- Perform an action, and close a descriptor after it, whatever its outcome. -/
def closing {α : Type} (fd : Nat) (action : Guest.Action α) : Guest.Action α := fun g =>
  match action g with
  | .ok a g =>
    match Guest.close fd g with
    | .ok _ g => .ok a g
    | .error e g => .error e g
  | .error e g =>
    match Guest.close fd g with
    | .ok _ g => .error e g
    | .error e g => .error e g

/-- The content of the file at an absolute path. -/
def readFile (path : String) : Guest.Action Bytes := do
  let (dirFd, rest) ← Guest.target path
  let fd ← Guest.openPath dirFd rest {}
  closing fd (readChunks fd ByteArray.empty)

/-- Write the file at an absolute path, making or emptying it first. -/
def writeFile (path : String) (data : Bytes) : Guest.Action Unit := do
  let (dirFd, rest) ← Guest.target path
  let fd ← Guest.openPath dirFd rest { create := true, truncate := true, write := true }
  writeChunks fd data 0
  Guest.close fd

/-- Whether something stands at an absolute path. -/
def fileExists (path : String) : Native Bool := do
  let found ← Native.attempt do
    let (dirFd, rest) ← Guest.target path
    Guest.pathStatus dirFd rest
  return found.toBool

/-- Write text to a stream; a stream that cannot be written to is a fault. -/
def writeStream (fd : Nat) (text : String) : Native Unit := do
  match ← Native.attempt (Guest.write fd (Bytes.ofText text)) with
  | .ok _ => return
  | .error e => throw (.faulted (.stream fd e))

/-- Write text to the output stream. -/
def print (text : String) : Native Unit := writeStream 1 text

/-- Report what went wrong, and exit with code one. -/
def fail {α : Type} (message : String) : Native α := do
  writeStream 2 (message ++ "\n")
  throw (.exited 1)

/-- The value of an environment variable, empty if it is not set. -/
def environmentValue (name : String) : Native String := do
  return ((← get).environment.lookup name).getD ""

/-- The arguments without the program's name. -/
def arguments : Native (List String) := do
  return (← get).arguments.drop 1

end StagedSandbox.Tool
