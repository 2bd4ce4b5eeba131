import StagedSandbox.Proofs.Fs.Move

/-!
# How long files get

A change brings in no file of more than `Fs.maxFileSize` bytes, and lengthens none beyond it. So a
limit that holds for all files of a file system still holds after every change, as long as it is not
below that size (`Fs.Change.Limited`); a file that is longer from the beginning may stay so.
-/

namespace StagedSandbox

/-- No file at a node or below it holds more than so many bytes. -/
def Node.FilesWithin (limit : Nat) (node : Node) : Prop :=
  ∀ path content, node.lookup path = some (.file content) → content.size ≤ limit

/-- No file holds more than so many bytes. -/
def Fs.FilesWithin (limit : Nat) (fs : Fs) : Prop :=
  ∀ path content, fs.lookup path = some (.file content) → content.size ≤ limit

theorem Node.filesWithin_file {limit : Nat} {content : Bytes} :
    (Node.file content).FilesWithin limit ↔ content.size ≤ limit := by
  constructor
  · intro h
    exact h [] content rfl
  · intro h path found hfound
    cases path with
    | nil =>
      obtain rfl := Node.file.inj (Option.some.inj hfound)
      exact h
    | cons name rest => cases hfound

namespace Fs

variable {α : Type} {limit : Nat} {fs fs' : Fs} {path : Path}

namespace FilesWithin

theorem of_lookup (h : fs.FilesWithin limit) {node : Node} (hnode : fs.lookup path = some node) :
    node.FilesWithin limit := by
  intro rest content hcontent
  apply h (path ++ rest) content
  rw [lookup_append, hnode]
  exact hcontent

theorem length_le (h : fs.FilesWithin limit) {found : Metadata} (hstat : fs.stat path = .ok found) :
    found.length ≤ limit := by
  obtain ⟨node, hnode, rfl⟩ := stat_eq_ok_iff.mp hstat
  cases node with
  | file content => exact h path content hnode
  | dir children => exact Nat.zero_le limit

end FilesWithin

theorem Replaced.filesWithin {new : Option Node} (h : fs.Replaced path new fs')
    (hfs : fs.FilesWithin limit) (hnew : ∀ node, new = some node → node.FilesWithin limit) :
    fs'.FilesWithin limit := by
  intro other content hcontent
  by_cases hunder : path <+: other
  · obtain ⟨rest, rfl⟩ := hunder
    rw [lookup_append, h.here, Option.bind_eq_some_iff] at hcontent
    obtain ⟨node, hnode, hrest⟩ := hcontent
    exact hnew node hnode rest content hrest
  · apply hfs other content
    rw [← view_eq_file_iff, ← h.beside other hunder]
    exact view_eq_file_iff.mpr hcontent

theorem Moved.filesWithin {source goal : Path} (h : fs.Moved source goal fs')
    (hfs : fs.FilesWithin limit) : fs'.FilesWithin limit := by
  obtain ⟨node, between, hnode, hdetached, hattached⟩ := h
  have hbetween : between.FilesWithin limit := hdetached.filesWithin hfs nofun
  apply hattached.filesWithin hbetween
  intro moved hmoved
  obtain rfl := Option.some.inj hmoved
  exact hfs.of_lookup hnode

/-! ### Changes -/

/-- A change keeps a limit of all files, whether it succeeds or fails. -/
def Change.Limited {ε : Type} (limit : Nat) (change : EStateM ε Fs α) : Prop :=
  ∀ fs : Fs, fs.FilesWithin limit → (Action.left change fs).FilesWithin limit

theorem Change.Limited.of_ok {ε : Type} {change : EStateM ε Fs α}
    (h : Change.Limited limit change) (hfs : fs.FilesWithin limit) {a : α}
    (hrun : change fs = .ok a fs') : fs'.FilesWithin limit := by
  have hleft := h fs hfs
  rwa [Action.left, hrun] at hleft

theorem Change.Limited.of_error {ε : Type} {change : EStateM ε Fs α}
    (h : Change.Limited limit change) (hfs : fs.FilesWithin limit) {e : ε}
    (hrun : change fs = .error e fs') : fs'.FilesWithin limit := by
  have hleft := h fs hfs
  rwa [Action.left, hrun] at hleft

/-- A decision brings in only files within the limit where only such files were found. -/
theorem Change.Follows.limited {change : Change α}
    {decision : Except Obstacle (Option Node) → Except Obstacle (α × Option Node)}
    (h : change.Follows path decision)
    (hdecision : ∀ found a node, decision found = .ok (a, some node) →
      (∀ old, found = .ok (some old) → old.FilesWithin limit) → node.FilesWithin limit) :
    Change.Limited limit change := by
  intro fs hlimit
  have hfs := h fs
  rw [Action.left]
  cases hdec : decision (fs.reach path) with
  | error e =>
    rw [hdec] at hfs
    rw [hfs]
    exact hlimit
  | ok outcome =>
    obtain ⟨a, new⟩ := outcome
    rw [hdec] at hfs
    obtain ⟨fs', hrun, hreplaced⟩ := hfs
    rw [hrun]
    apply hreplaced.filesWithin hlimit
    rintro node rfl
    exact hdecision _ a node hdec fun old hold => hlimit.of_lookup (lookup_of_reach hold)

/-- The content that an edit leaves in a file is within the limit if the old content was. -/
theorem limited_edit {change : Change Unit} {size : Nat} {edit : Bytes → Bytes}
    (h : change.Follows path fun found =>
      if size ≤ maxFileSize then found.bind (Decide.edit edit) else .error .tooLarge)
    (hedit : ∀ old : Bytes, size ≤ maxFileSize → old.size ≤ limit → (edit old).size ≤ limit) :
    Change.Limited limit change := by
  apply h.limited
  intro found a node hdec hfound
  split at hdec
  · next hsize =>
    cases found with
    | error e => cases hdec
    | ok found =>
      rcases found with _ | ⟨old⟩ | ⟨children⟩
      · cases hdec
      · obtain ⟨-, hnew⟩ := Prod.mk.inj (Except.ok.inj hdec)
        obtain rfl := Option.some.inj hnew
        have hold := hfound (.file old) rfl
        rw [Node.filesWithin_file] at hold ⊢
        exact hedit old hsize hold
      · cases hdec
  · cases hdec

theorem limited_makeDir (path : Path) : Change.Limited limit (makeDir path) := by
  apply (follows_makeDir path).limited
  intro found a node hdec _
  rcases found with e | _ | old
  · cases hdec
  · obtain ⟨-, hnew⟩ := Prod.mk.inj (Except.ok.inj hdec)
    obtain rfl := Option.some.inj hnew
    intro rest content hcontent
    cases rest with
    | nil => cases hcontent
    | cons name more => simp [lookup_cons] at hcontent
  · cases hdec

theorem Decide.size_le_of_sized {content : Bytes} {a : Unit} {node : Node}
    (h : Decide.sized content = .ok (a, some node)) :
    node = .file content ∧ content.size ≤ maxFileSize := by
  rw [Decide.sized] at h
  split at h
  · next hsize =>
    obtain ⟨-, hnew⟩ := Prod.mk.inj (Except.ok.inj h)
    exact ⟨(Option.some.inj hnew).symm, hsize⟩
  · cases h

section

variable (hmax : maxFileSize ≤ limit)

include hmax

theorem limited_write (path : Path) (data : Bytes) (mode : WriteMode) :
    Change.Limited limit (write path data mode) := by
  apply (follows_write path data mode).limited
  intro found a node hdec _
  suffices ∃ content, Decide.sized content = .ok (a, some node) by
    obtain ⟨content, hsized⟩ := this
    obtain ⟨rfl, hsize⟩ := Decide.size_le_of_sized hsized
    exact Node.filesWithin_file.mpr (Nat.le_trans hsize hmax)
  rcases found with e | _ | ⟨old⟩ | ⟨children⟩
  · cases hdec
  · exact ⟨data, hdec⟩
  · cases mode with
    | overwrite => exact ⟨data, hdec⟩
    | append => exact ⟨old ++ data, hdec⟩
  · cases hdec

theorem limited_writeAt (path : Path) (start : Nat) (data : Bytes) :
    Change.Limited limit (writeAt path start data) := by
  apply limited_edit (follows_writeAt path start data)
  intro old hsize hold
  rw [Bytes.size_overlay]
  exact Nat.max_le.mpr ⟨hold, Nat.le_trans hsize hmax⟩

theorem limited_truncate (path : Path) (size : Nat) :
    Change.Limited limit (truncate path size) := by
  apply limited_edit (follows_truncate path size)
  intro old hsize _
  rw [Bytes.size_resize]
  exact Nat.le_trans hsize hmax

end

theorem limited_remove {change : Change Unit}
    {decision : Option Node → Except Obstacle (Unit × Option Node)}
    (h : change.Follows path (·.bind decision))
    (hnone : ∀ found a node, decision found ≠ .ok (a, some node)) :
    Change.Limited limit change := by
  apply h.limited
  intro found a node hdec _
  cases found with
  | error e => cases hdec
  | ok found => exact absurd hdec (hnone found a node)

theorem limited_removeFile (path : Path) : Change.Limited limit (removeFile path) := by
  apply limited_remove (follows_removeFile path)
  rintro (_ | ⟨content⟩ | ⟨children⟩) a node hdec <;> cases hdec

theorem limited_removeDir (path : Path) : Change.Limited limit (removeDir path) := by
  apply limited_remove (follows_removeDir path)
  rintro (_ | ⟨content⟩ | ⟨_ | ⟨first, rest⟩⟩) a node hdec <;> cases hdec

theorem limited_move (source goal : Path) : Change.Limited limit (move source goal) := by
  intro fs hfs
  have hmove := move_cases fs source goal
  rw [Action.left]
  split at hmove
  · rw [hmove]
    exact hfs
  · split at hmove
    · rw [hmove]
      exact hfs
    · obtain ⟨fs', hrun, hmoved⟩ := hmove
      rw [hrun]
      exact hmoved.filesWithin hfs

end Fs

end StagedSandbox
