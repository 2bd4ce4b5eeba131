import StagedSandbox.Proofs.Fs.Change

/-!
# Changes confined to a path

A change is confined to a path if it follows a decision about what stands there that brings in
only well-formed nodes. Such a change is seen only at paths that lead through its own, keeps the
file system well formed, and does the same in two file systems that hold the same at the path.
A move is confined to its two ends.
-/

namespace StagedSandbox.Fs

variable {α : Type}

/-- A decision leaves only well-formed nodes where well-formed ones were found. -/
def Decide.Sound
    (decision : Except Obstacle (Option Node) → Except Obstacle (α × Option Node)) : Prop :=
  ∀ found a new, decision found = .ok (a, new) →
    (∀ node, found = .ok (some node) → node.WellFormed) → ∀ node, new = some node → node.WellFormed

/-- A change that is decided by what can be reached at a path. -/
def Change.Confined (change : Change α) (path : Path) : Prop :=
  ∃ decision, change.Follows path decision ∧ Decide.Sound decision

namespace Change.Confined

variable {change : Change α} {path : Path}

/-- Paths that do not lead through the path of the change show what they did before. -/
theorem view_left (h : change.Confined path) (fs : Fs) {other : Path} (hother : ¬ path <+: other) :
    (Action.left change fs).view other = fs.view other := by
  obtain ⟨decision, hfollows, -⟩ := h
  have hfs := hfollows fs
  rw [Action.left]
  split at hfs
  · rw [hfs]
  · obtain ⟨fs', hrun, hreplaced⟩ := hfs
    rw [hrun]
    exact hreplaced.beside other hother

/-- In two well-formed file systems that hold the same at the path, the change is refused alike or
answers alike and leaves the same node. -/
theorem congr (h : change.Confined path) {fs₁ fs₂ : Fs} (hreach : fs₁.reach path = fs₂.reach path)
    (h₁ : fs₁.WellFormed) (h₂ : fs₂.WellFormed) (hnamed : path.Named) :
    (∃ e, change fs₁ = .error e fs₁ ∧ change fs₂ = .error e fs₂) ∨
    ∃ a new fs₁' fs₂', change fs₁ = .ok a fs₁' ∧ change fs₂ = .ok a fs₂' ∧
      fs₁.Replaced path new fs₁' ∧ fs₂.Replaced path new fs₂' ∧
      fs₁'.WellFormed ∧ fs₂'.WellFormed := by
  obtain ⟨decision, hfollows, hsound⟩ := h
  have hfs₁ := hfollows fs₁
  have hfs₂ := hfollows fs₂
  rw [← hreach] at hfs₂
  cases hdec : decision (fs₁.reach path) with
  | error e =>
    rw [hdec] at hfs₁ hfs₂
    exact Or.inl ⟨e, hfs₁, hfs₂⟩
  | ok outcome =>
    obtain ⟨a, new⟩ := outcome
    rw [hdec] at hfs₁ hfs₂
    obtain ⟨fs₁', hrun₁, hrep₁⟩ := hfs₁
    obtain ⟨fs₂', hrun₂, hrep₂⟩ := hfs₂
    have hnew := hsound _ a new hdec fun node hnode => h₁.of_lookup (lookup_of_reach hnode)
    exact Or.inr ⟨a, new, fs₁', fs₂', hrun₁, hrun₂, hrep₁, hrep₂,
      hrep₁.wellFormed h₁ hnamed hnew, hrep₂.wellFormed h₂ hnamed hnew⟩

/-- A confined change keeps a file system well formed. -/
theorem wellFormed_left (h : change.Confined path) {fs : Fs} (hfs : fs.WellFormed)
    (hnamed : path.Named) : (Action.left change fs).WellFormed := by
  rcases h.congr rfl hfs hfs hnamed with ⟨e, hrun, -⟩ | ⟨a, new, fs', -, hrun, -, -, -, hwf, -⟩
  · rwa [Action.left, hrun]
  · rwa [Action.left, hrun]

end Change.Confined

/-! ### The changes that are confined -/

theorem Decide.sound_bind {decision : Option Node → Except Obstacle (α × Option Node)}
    (h : ∀ found a new, decision found = .ok (a, new) →
      (∀ node, found = some node → node.WellFormed) → ∀ node, new = some node → node.WellFormed) :
    Decide.Sound (·.bind decision) := by
  intro found a new hdec hfound
  cases found with
  | error e => simp [Except.bind] at hdec
  | ok found => exact h found a new hdec fun node hnode => hfound node (by rw [hnode])

theorem Decide.Sound.checkSize
    {decision : Except Obstacle (Option Node) → Except Obstacle (α × Option Node)}
    (h : Decide.Sound decision) (c : Prop) [Decidable c] :
    Decide.Sound fun found => if c then decision found else .error .tooLarge := by
  intro found a new hdec
  dsimp only at hdec
  split at hdec
  · exact h found a new hdec
  · simp at hdec

theorem Decide.sound_edit (change : Bytes → Bytes) :
    Decide.Sound (·.bind (Decide.edit change)) := by
  refine Decide.sound_bind fun found a new hdec _ node hnode => ?_
  unfold Decide.edit at hdec
  split at hdec
  · simp only [Except.ok.injEq, Prod.mk.injEq] at hdec
    obtain ⟨-, rfl⟩ := hdec
    obtain rfl := Option.some.inj hnode
    exact .file _
  · simp at hdec
  · simp at hdec

theorem confined_makeDir (path : Path) : (makeDir path).Confined path := by
  refine ⟨_, follows_makeDir path, Decide.sound_bind fun found a new hdec _ node hnode => ?_⟩
  cases found with
  | none =>
    simp only [Decide.makeDir, Except.ok.injEq, Prod.mk.injEq] at hdec
    obtain ⟨-, rfl⟩ := hdec
    obtain rfl := Option.some.inj hnode
    exact WellFormed.empty
  | some old => simp [Decide.makeDir] at hdec

theorem Decide.eq_file_of_sized {content : Bytes} {a : Unit} {new : Option Node}
    (h : Decide.sized content = .ok (a, new)) : new = some (.file content) := by
  rw [Decide.sized] at h
  split at h
  · simp only [Except.ok.injEq, Prod.mk.injEq] at h
    exact h.2.symm
  · simp at h

theorem confined_write (path : Path) (data : Bytes) (mode : WriteMode) :
    (write path data mode).Confined path := by
  refine ⟨_, follows_write path data mode,
    Decide.sound_bind fun found a new hdec _ node hnode => ?_⟩
  suffices ∃ content, new = some (.file content) by
    obtain ⟨content, rfl⟩ := this
    obtain rfl := Option.some.inj hnode
    exact .file content
  unfold Decide.write at hdec
  split at hdec
  · simp at hdec
  · cases mode with
    | overwrite => exact ⟨_, Decide.eq_file_of_sized hdec⟩
    | append => exact ⟨_, Decide.eq_file_of_sized hdec⟩
  · exact ⟨_, Decide.eq_file_of_sized hdec⟩

theorem confined_writeAt (path : Path) (start : Nat) (data : Bytes) :
    (writeAt path start data).Confined path :=
  ⟨_, follows_writeAt path start data, (Decide.sound_edit _).checkSize _⟩

theorem confined_truncate (path : Path) (size : Nat) : (truncate path size).Confined path :=
  ⟨_, follows_truncate path size, (Decide.sound_edit _).checkSize _⟩

theorem confined_removeFile (path : Path) : (removeFile path).Confined path := by
  refine ⟨_, follows_removeFile path, Decide.sound_bind fun found a new hdec _ node hnode => ?_⟩
  unfold Decide.removeFile at hdec
  split at hdec <;> simp_all

theorem confined_removeDir (path : Path) : (removeDir path).Confined path := by
  refine ⟨_, follows_removeDir path, Decide.sound_bind fun found a new hdec _ node hnode => ?_⟩
  unfold Decide.removeDir at hdec
  split at hdec <;> simp_all

end StagedSandbox.Fs
