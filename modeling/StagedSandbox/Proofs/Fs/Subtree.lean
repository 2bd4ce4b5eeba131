import StagedSandbox.Proofs.Fs.Operation

/-!
# Moving a subtree

A move succeeds just if there is something to move and its goal can take it (`Fs.Movable`). It then
takes all that stands at the source and below it to the goal and leaves everything else alone
(`Fs.Transferred`), so that no node is lost or copied (`Fs.Operation.move_subtree`).
-/

namespace StagedSandbox

/-- Whether a node may take the place of another one: a file that of a file, and a directory that
of an empty directory. -/
def Node.MayReplace : Node → Option Node → Prop
  | _, none => True
  | .file _, some (.file _) => True
  | .dir _, some (.dir children) => children = []
  | _, _ => False

namespace Fs

/-- Something stands at the source, and it is at its goal already, or may be put there: not below
itself, in a directory, and in the place of nothing but what may be replaced. -/
def Movable (fs : Fs) (source goal : Path) : Prop :=
  source ≠ [] ∧ goal ≠ [] ∧ ∃ node, fs.lookup source = some node ∧
    (source = goal ∨
      ¬ source <+: goal ∧ fs.view goal.dropLast = some .dir ∧ node.MayReplace (fs.lookup goal))

/-- All that stood at the source and below it stands at the goal instead, and what is seen at all
other paths is what was seen before. -/
structure Transferred (fs : Fs) (source goal : Path) (fs' : Fs) : Prop where
  arrived : ∀ rest, fs'.lookup (goal ++ rest) = fs.lookup (source ++ rest)
  gone : ∀ rest, fs'.lookup (source ++ rest) = none
  beside : ∀ other, ¬ source <+: other → ¬ goal <+: other → fs'.view other = fs.view other

variable {fs fs' : Fs} {source goal : Path}

/-! ### When a move is refused -/

theorem checkGoal_eq_ok_iff {moved : Node} {there : Option Node} :
    checkGoal moved.metadata.isDirectory there = .ok () ↔ moved.MayReplace there := by
  cases there with
  | none => simp [checkGoal, Node.MayReplace]
  | some node =>
    cases node with
    | file content => cases moved <;> simp [checkGoal, Node.MayReplace, Node.metadata]
    | dir children =>
      cases moved <;> cases children <;> simp [checkGoal, Node.MayReplace, Node.metadata]

theorem stat_isDirectory_iff {path : Path} :
    fs.view path = some .dir ↔ ∃ found, fs.stat path = .ok found ∧ found.isDirectory = true := by
  rw [view_eq_dir_iff]
  constructor
  · rintro ⟨children, hdir⟩
    exact ⟨_, stat_eq_ok_iff.2 ⟨_, hdir, rfl⟩, rfl⟩
  · rintro ⟨found, hstat, hfound⟩
    obtain ⟨node, hnode, rfl⟩ := stat_eq_ok_iff.1 hstat
    obtain ⟨children, rfl⟩ := isDirectory_metadata.1 hfound
    exact ⟨children, hnode⟩

/-- The checks before a move let through just what can be moved. -/
theorem checkMove_eq_ok_iff : fs.checkMove source goal = .ok () ↔ fs.Movable source goal := by
  rw [checkMove, Movable]
  by_cases hroot : source = [] ∨ goal = []
  · rw [if_pos hroot]
    rcases hroot with rfl | rfl <;> simp
  obtain ⟨hsource, hgoal⟩ := not_or.1 hroot
  rw [if_neg hroot]
  simp only [ne_eq, hsource, hgoal, not_false_eq_true, true_and]
  cases hstat : fs.stat source with
  | error e =>
    have hnone : ∀ node, fs.lookup source ≠ some node := by
      intro node hnode
      rw [stat_eq_ok_iff.2 ⟨node, hnode, rfl⟩] at hstat
      cases hstat
    simp [hnone]
  | ok moved =>
    obtain ⟨node, hnode, rfl⟩ := stat_eq_ok_iff.1 hstat
    simp only [hnode, Option.some.injEq, exists_eq_left', List.isPrefixOf_iff_prefix]
    by_cases hsame : source = goal
    · simp [hsame]
    by_cases hunder : source <+: goal
    · simp [hsame, hunder]
    simp only [hsame, hunder, if_false, false_or, not_false_eq_true, true_and,
      stat_isDirectory_iff]
    cases hholder : fs.stat goal.dropLast with
    | error e => simp
    | ok holder =>
      by_cases hdir : holder.isDirectory = true
      · simp [hdir, Action.mapError_eq_ok, checkGoal_eq_ok_iff]
      · simp [hdir]

/-! ### What a move does -/

/-- What can be moved elsewhere does not stand below its goal: the goal would hold it. -/
theorem Movable.not_isPrefix (h : fs.Movable source goal) (hne : source ≠ goal) :
    ¬ source <+: goal ∧ ¬ goal <+: source := by
  obtain ⟨-, -, node, hnode, hsame | ⟨hunder, -, hplace⟩⟩ := h
  · exact absurd hsame hne
  refine ⟨hunder, ?_⟩
  rintro ⟨rest, rfl⟩
  have hrest : rest ≠ [] := by
    rintro rfl
    exact hne (List.append_nil goal)
  have hview : fs.view (goal ++ rest) ≠ none := by
    rw [ne_eq, view_eq_none_iff, hnode]
    exact Option.some_ne_none node
  obtain ⟨children, hdir⟩ := view_eq_dir_iff.1 (view_eq_dir_of_isPrefix hrest hview)
  rw [hdir] at hplace
  cases node with
  | file content => exact hplace
  | dir below =>
    obtain rfl : children = [] := hplace
    rw [lookup_append_of_dir hdir, view_eq_none_iff.1 (view_empty hrest)] at hnode
    cases hnode

theorem Moved.transferred (h : fs.Moved source goal fs') (hsource : ¬ source <+: goal)
    (hgoal : ¬ goal <+: source) : fs.Transferred source goal fs' := by
  obtain ⟨node, between, hnode, hdetached, hattached⟩ := h
  refine ⟨fun rest => ?_, fun rest => ?_, fun other hother hother' => ?_⟩
  · rw [lookup_append, lookup_append, hattached.here, hnode]
  · have hbeside : ¬ goal <+: source ++ rest := by
      intro hunder
      rcases List.prefix_or_prefix_of_prefix hunder (List.prefix_append source rest) with h' | h'
      · exact hgoal h'
      · exact hsource h'
    rw [← view_eq_none_iff, hattached.beside _ hbeside, view_append, hdetached.here]
    rfl
  · rw [hattached.beside other hother', hdetached.beside other hother]

namespace Operation

/-- A move between the paths that two texts denote succeeds just if it can, and it moves all that
stands at the one path to the other, and nothing else. Otherwise nothing changes. -/
theorem move_subtree (fs : Fs) {old new : String} (hsource : Path.parse? old = some source)
    (hgoal : Path.parse? new = some goal) :
    ((∃ fs', (Operation.move old new).run fs = .ok () fs') ↔ fs.Movable source goal) ∧
    (∀ fs', (Operation.move old new).run fs = .ok () fs' →
      (source = goal → fs' = fs) ∧ (source ≠ goal → fs.Transferred source goal fs')) ∧
    ∀ e fs', (Operation.move old new).run fs = .error e fs' → fs' = fs := by
  have hrun : (Operation.move old new).run fs = Fs.move source goal fs := by
    rw [run, moveText, hsource, hgoal]
  have hcases := move_cases fs source goal
  rw [hrun, ← checkMove_eq_ok_iff]
  cases hcheck : fs.checkMove source goal with
  | error e =>
    rw [hcheck] at hcases
    dsimp only at hcases
    rw [hcases]
    refine ⟨⟨?_, ?_⟩, ?_, ?_⟩
    · rintro ⟨fs', hok⟩
      cases hok
    · intro hok
      cases hok
    · intro fs' hok
      cases hok
    · intro e' fs' herror
      cases herror
      rfl
  | ok _ =>
    have hmovable := checkMove_eq_ok_iff.1 hcheck
    rw [hcheck] at hcases
    dsimp only at hcases
    split at hcases
    · next hsame =>
      rw [hcases]
      refine ⟨⟨fun _ => rfl, fun _ => ⟨fs, rfl⟩⟩, fun fs' hok => ?_, fun e fs' herror => ?_⟩
      · cases hok
        exact ⟨fun _ => rfl, fun hne => absurd hsame hne⟩
      · cases herror
    · next hne =>
      obtain ⟨left, hleft, hmoved⟩ := hcases
      obtain ⟨hunder, hover⟩ := hmovable.not_isPrefix hne
      rw [hleft]
      refine ⟨⟨fun _ => rfl, fun _ => ⟨left, rfl⟩⟩, fun fs' hok => ?_, fun e fs' herror => ?_⟩
      · cases hok
        exact ⟨fun hsame => absurd hsame hne, fun _ => hmoved.transferred hunder hover⟩
      · cases herror

/-- A directory moves into one that lies beside it and whose name its own continues, and takes
what it holds along. -/
theorem move_subtree_sibling :
    let fs : Fs := [("a", .dir [("b", .dir [("f", .file ⟨#[1]⟩)])]), ("ab", .dir [])]
    Path.parse? "/a/./b/" = some ["a", "b"] ∧ Path.parse? "/ab" = some ["ab"] ∧
      ∃ fs', (Operation.move "/a/./b/" "/ab").run fs = .ok () fs' ∧
        fs'.view ["ab", "f"] = some (.file ⟨#[1]⟩) ∧ fs'.view ["a", "b", "f"] = none ∧
        fs'.view ["a"] = some .dir := by
  intro fs
  have hsource : Path.parse? "/a/./b/" = some ["a", "b"] := by decide
  have hgoal : Path.parse? "/ab" = some ["ab"] := by decide
  obtain ⟨hok, hmoved, -⟩ := move_subtree fs hsource hgoal
  obtain ⟨fs', hrun⟩ := hok.2 ⟨by decide, by decide, _, rfl, Or.inr ⟨by decide, rfl, rfl⟩⟩
  have htransferred := (hmoved fs' hrun).2 (by decide)
  have harrived := htransferred.arrived ["f"]
  have hgone := htransferred.gone ["f"]
  refine ⟨hsource, hgoal, fs', hrun, ?_, ?_, ?_⟩
  · exact view_eq_file_iff.2 harrived
  · exact view_eq_none_iff.2 hgone
  · exact htransferred.beside ["a"] (by decide) (by decide)

end Operation

end Fs

end StagedSandbox
