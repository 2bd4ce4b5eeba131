import StagedSandbox.Host.Walk
import StagedSandbox.Snapshot.Builder

/-!
# Mounts

A mount shows a path of the host at a path of the snapshot. Its files and directories are added
in the order of a walk, one that yields each directory before what it holds.
-/

namespace StagedSandbox

/-- A path of the host, and the path of the snapshot at which it is packed. -/
structure Mount where
  host : String
  virtualPath : String
  deriving DecidableEq, Repr

/-- Read a mount: what follows the last colon is the path of the snapshot. -/
def Mount.parse (text : String) : Except Misconfiguration Mount :=
  match Text.splitLast? (· = ':') text.toList with
  | none => .error (.mountShape text)
  | some (host, virtualPath) =>
    if host.isEmpty ∨ ¬ Path.isAbsolute (String.ofList virtualPath) then .error (.mountPath text)
    else .ok ⟨String.ofList host, String.ofList virtualPath⟩

namespace Snapshot

/-- Add a directory or a file of a walk beneath a path. -/
def addWalked (base : Path) (s : Snapshot) (entry : Path × Option Bytes) :
    Except Misconfiguration Snapshot :=
  match entry.2 with
  | none => s.addDir (base ++ entry.1).render
  | some content => s.addFile (base ++ entry.1).render content

/-- Pack a mount. -/
def addMount (s : Snapshot) (tree : HostTree) (mount : Mount) : Except Failure Snapshot := do
  let base ← (entryPath mount.virtualPath).mapError Failure.configuration
  let entries ← (tree.walk mount.host).mapError Failure.unreadableSource
  (entries.foldlM (addWalked base) s).mapError Failure.configuration

/-- Pack mounts one after the other. -/
def ofMounts (tree : HostTree) (mounts : List Mount) : Except Failure Snapshot :=
  mounts.foldlM (fun s mount => s.addMount tree mount) {}

end Snapshot

end StagedSandbox
