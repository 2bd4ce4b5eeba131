import StagedSandbox.Cli.Session
import StagedSandbox.Proofs.Action
import StagedSandbox.Proofs.Host.Tree
import StagedSandbox.Proofs.Snapshot.IndexText

/-!
# Snapshots in files

A snapshot that was written to two files is the snapshot that is read from them
(`Snapshot.read_written`).
-/

namespace StagedSandbox

open StagedSandbox.Action

namespace Cli

variable {s s' : Session}

theorem onHost_eq {change : HostTree.Change} {tree : HostTree} (h : change s.tree = .ok () tree) :
    onHost change s = .ok () { s with tree } := by
  rw [onHost, h]

theorem onHost_ok {change : HostTree.Change} {u : Unit} (h : onHost change s = .ok u s') :
    ∃ tree, change s.tree = .ok () tree ∧ s' = { s with tree } := by
  rw [onHost] at h
  cases hrun : change s.tree with
  | error e tree => simp [hrun] at h
  | ok _ tree =>
    rw [hrun] at h
    obtain ⟨-, rfl⟩ := EStateM.Result.ok.inj h
    exact ⟨tree, rfl, rfl⟩

theorem askHost_eq {α : Type} {question : HostTree → Except OsError α} {a : α}
    (h : question s.tree = .ok a) : askHost question s = .ok a s := by
  rw [askHost, run_bind_of_ok (run_get s), h]
  rfl

/-- The two paths lead to different places, or one of them leads nowhere. -/
def Apart (tree : HostTree) (text other : String) : Prop :=
  ∀ place node node', tree.find text = .ok (place, node) → tree.find other ≠ .ok (place, node')

/-- What is written to two files that are not the same is read from them. -/
theorem read_of_writeSnapshot {snapshot : Snapshot} {files : SnapshotFiles}
    (h : writeSnapshot snapshot files s = .ok () s')
    (hapart : Apart s'.tree files.index files.blob) :
    s'.tree.read files.index = .ok (Bytes.ofText snapshot.index.render) ∧
      s'.tree.read files.blob = .ok snapshot.blob := by
  obtain ⟨_, t₁, -, hrest⟩ := exists_of_bind h
  obtain ⟨_, t₂, -, hrest⟩ := exists_of_bind hrest
  obtain ⟨_, t₃, hwriteIndex, hwriteBlob⟩ := exists_of_bind hrest
  obtain ⟨tree, hindex, rfl⟩ := onHost_ok hwriteIndex
  obtain ⟨tree', hblob, rfl⟩ := onHost_ok hwriteBlob
  obtain ⟨place, -, hfindIndex⟩ := HostTree.find_of_write hindex
  obtain ⟨place', hput, hfindBlob⟩ := HostTree.find_of_write hblob
  have hagain := HostTree.find_of_putFile hput hfindIndex
  have hne : place ≠ place' := by
    rintro rfl
    exact hapart _ _ _ hagain hfindBlob
  rw [if_neg hne] at hagain
  exact ⟨HostTree.read_of_find hagain, HostTree.read_of_find hfindBlob⟩

end Cli

/-- An index is read back from its written form, whatever its keys and numbers are, and the blob is
taken as it is. A snapshot that is written to two files, and read from them again, is the same
snapshot. -/
theorem Snapshot.read_written {s : Snapshot} (h : s.index.WellFormed) :
    ofParts (Bytes.ofText s.index.render) s.blob = .ok s ∧
      (ofParts (Bytes.ofText s.index.render) s.blob).bind load = s.load ∧
      ∀ files session session', Cli.writeSnapshot s files session = .ok () session' →
        Cli.Apart session'.tree files.index files.blob →
        Cli.readSnapshot files session' = .ok s session' := by
  have hparts : ofParts (Bytes.ofText s.index.render) s.blob = .ok s := by
    rw [ofParts, Index.parse?_render h]
  refine ⟨hparts, ?_, fun files session session' hwrite hapart => ?_⟩
  · rw [hparts]
    rfl
  · obtain ⟨hreadIndex, hreadBlob⟩ := Cli.read_of_writeSnapshot hwrite hapart
    rw [Cli.readSnapshot, run_bind_of_ok (Cli.askHost_eq hreadIndex),
      run_bind_of_ok (Cli.askHost_eq hreadBlob), hparts]
    rfl

namespace Snapshot

/-- A snapshot with the empty key, and with a key whose characters are written as escapes. -/
def awkward : Snapshot where
  index := [("", .dir), ("\"\\\n\x01é", .file 0 (UInt64.size - 1))]
  blob := Bytes.ofList [0xff]

theorem wellFormed_awkward : awkward.index.WellFormed where
  order := show ["", "\"\\\n\x01é"].Pairwise (· < ·) by decide
  fits := by simp [awkward, Entry.Fits]

theorem read_written_awkward :
    awkward.index.WellFormed ∧
      ofParts (Bytes.ofText awkward.index.render) awkward.blob = .ok awkward ∧
      ∃ session, Cli.writeSnapshot awkward ⟨"i", "b"⟩ { tree := {} } = .ok () session ∧
        Cli.readSnapshot ⟨"i", "b"⟩ session = .ok awkward session := by
  have hi : HostTree.OneName "i" := by constructor <;> decide +kernel
  have hb : HostTree.OneName "b" := by constructor <;> decide +kernel
  let one : HostTree := { root := [("i", .file (Bytes.ofText awkward.index.render))] }
  let two : HostTree := { root := ("b", .file awkward.blob) :: one.root }
  have hnone (tree : HostTree) : HostTree.makeDirsOf [] tree = .ok () tree := rfl
  have hstart : one.get? one.start = some (.dir one.root) := rfl
  have hindex : HostTree.write "i" (Bytes.ofText awkward.index.render) {} = .ok () one :=
    hi.write_eq (show HostTree.get? {} [] = some (.dir []) from rfl) rfl _
  have hblob : HostTree.write "b" awkward.blob one = .ok () two := hb.write_eq hstart rfl _
  have hwrite : Cli.writeSnapshot awkward ⟨"i", "b"⟩ { tree := {} } = .ok () { tree := two } := by
    rw [Cli.writeSnapshot, HostTree.makeParents, HostTree.makeParents, hi.parents_eq, hb.parents_eq,
      run_bind_of_ok (Cli.onHost_eq (hnone _)), run_bind_of_ok (Cli.onHost_eq (hnone _)),
      run_bind_of_ok (Cli.onHost_eq hindex)]
    exact Cli.onHost_eq hblob
  have hapart : Cli.Apart two "i" "b" := by
    have hstart : two.get? two.start = some (.dir two.root) := rfl
    intro place node node' hfind hfind'
    have hplace := hi.place_of_find hstart rfl hfind
    have hplace' := hb.place_of_find hstart rfl hfind'
    exact absurd (hplace.symm.trans hplace') (by decide)
  obtain ⟨hparts, -, hread⟩ := read_written wellFormed_awkward
  exact ⟨wellFormed_awkward, hparts, _, hwrite, hread _ _ _ hwrite hapart⟩

end Snapshot

end StagedSandbox
