import StagedSandbox.Snapshot.Basic

/-!
# Building snapshots

A snapshot grows by one directory or file at a time. The directories above a path are recorded
with it, and a later entry takes the place of an earlier one: a file that takes the place of a
directory removes all below it. Bytes are only ever appended to the blob.
-/

namespace StagedSandbox.Snapshot

/-- The path that a text denotes, for an entry of a snapshot. -/
def entryPath (text : String) : Except Misconfiguration Path :=
  match Path.parse? text with
  | some path => .ok path
  | none => .error (.invalidPath text)

/-- The paths of the directories that a path lies in, the root left out. -/
def ancestors (path : Path) : List Path := (List.range' 1 (path.length - 1)).map path.take

/-- Record a directory, in the place of a file. -/
def addAncestor (index : Index) (path : Path) : Index := index.insert path.render .dir

/-- Record the directories that a path lies in. -/
def addAncestors (index : Index) (path : Path) : Index := (ancestors path).foldl addAncestor index

/-- Record an entry. -/
def record (index : Index) (path : String) (entry : Entry) : Index :=
  if index.get? path = some .dir ∧ entry ≠ .dir then
    Index.removeBelow (index.insert path entry) path
  else index.insert path entry

/-- Record a directory, and those it lies in. -/
def addDir (s : Snapshot) (text : String) : Except Misconfiguration Snapshot := do
  let path ← entryPath text
  if path = [] then return s
  return { s with index := record (addAncestors s.index path) path.render .dir }

/-- Append a file's content to the blob, and record it and the directories it lies in. -/
def addFile (s : Snapshot) (text : String) (content : Bytes) :
    Except Misconfiguration Snapshot := do
  let path ← entryPath text
  if path = [] then throw .fileAtRoot
  return {
    index := record (addAncestors s.index path) path.render (.file s.blob.size content.size)
    blob := s.blob ++ content }

end StagedSandbox.Snapshot
