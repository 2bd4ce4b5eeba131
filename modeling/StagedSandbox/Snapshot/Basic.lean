import StagedSandbox.Failure
import StagedSandbox.Fs.Change
import StagedSandbox.Snapshot.IndexText

/-!
# Snapshots

A snapshot is a packed file system: an index, and a blob that holds the contents of its files.
`Snapshot.validate` accepts an index whose ranges lie in the blob and do not overlap, and
`Snapshot.load` unpacks the file system.
-/

namespace StagedSandbox

structure Snapshot where
  index : Index := []
  blob : Bytes := ByteArray.empty

namespace Snapshot

/-- The end of a file's range, which has to lie in the blob. -/
def rangeEnd (s : Snapshot) (path : String) (offset length : Nat) : Except Corruption Nat :=
  if offset + length ≤ s.blob.size then .ok (offset + length)
  else .error (.outOfBlob path offset length s.blob.size)

/-- A file's range in the blob, and its path. -/
structure Range where
  start : Nat
  stop : Nat
  path : String
  deriving DecidableEq, Repr

/-- Ranges in the order of their starts, then of their ends, then of their paths. -/
def Range.before (a b : Range) : Bool :=
  if a.start ≠ b.start then a.start < b.start
  else if a.stop ≠ b.stop then a.stop < b.stop
  else a.path ≤ b.path

/-- The ranges of the files of an index, in the order of the index. -/
def ranges (s : Snapshot) : Index → Except Corruption (List Range)
  | [] => .ok []
  | (_, .dir) :: rest => ranges s rest
  | (path, .file offset length) :: rest => do
    let stop ← s.rangeEnd path offset length
    return ⟨offset, stop, path⟩ :: (← ranges s rest)

/-- Go through ranges in the order of their starts, and look for one that starts before the
furthest end so far. Empty ranges overlap with none. -/
def sweep (furthest : Option (Nat × String)) : List Range → Except Corruption Unit
  | [] => .ok ()
  | r :: rest =>
    if r.start = r.stop then sweep furthest rest
    else
      match furthest with
      | none => sweep (some (r.stop, r.path)) rest
      | some (stop, path) =>
        if r.start < stop then .error (.overlap path r.path)
        else sweep (some (if stop < r.stop then (r.stop, r.path) else (stop, path))) rest

/-- Check that all ranges lie in the blob and that no two of them overlap. -/
def validate (s : Snapshot) : Except Corruption Unit := do
  sweep none ((← s.ranges s.index).mergeSort Range.before)

/-- The content of the file at a path, if there is one and its range lies in the blob. -/
def fileBytes (s : Snapshot) (path : String) : Option Bytes :=
  match s.index.get? path with
  | some (.file offset length) => s.blob.slice? offset length
  | _ => none

/-- Run a change of a file system, and keep the file system only. -/
def apply (path : String) (change : EStateM FsError Fs Unit) (fs : Fs) : Except Corruption Fs :=
  match change fs with
  | .ok _ fs => .ok fs
  | .error e _ => .error (.refused path e)

/-- Unpack a directory. -/
def loadDir (fs : Fs) (path : String) : Except Corruption Fs :=
  apply path (Fs.changeAt path Fs.makeDirs) fs

/-- Unpack a file, after the directories it lies in. -/
def loadFile (s : Snapshot) (fs : Fs) (path : String) (offset length : Nat) :
    Except Corruption Fs := do
  let _ ← s.rangeEnd path offset length
  let fs ←
    match Path.parentText? path with
    | some parent => apply path (Fs.changeAt parent Fs.makeDirs) fs
    | none => .ok fs
  apply path (Fs.changeAt path (Fs.place · (s.blob.slice offset length))) fs

/-- Unpack the file system: all directories, and then all files. -/
def load (s : Snapshot) : Except Corruption Fs := do
  let fs ← s.index.foldlM (fun fs entry =>
    match entry.2 with
    | .dir => loadDir fs entry.1
    | .file _ _ => .ok fs) []
  s.index.foldlM (fun fs entry =>
    match entry.2 with
    | .dir => .ok fs
    | .file offset length => s.loadFile fs entry.1 offset length) fs

/-- The snapshot of a written index and a blob. -/
def ofParts (index blob : Bytes) : Except Corruption Snapshot :=
  match Index.parse? index with
  | some index => .ok ⟨index, blob⟩
  | none => .error .malformedIndex

end Snapshot

end StagedSandbox
