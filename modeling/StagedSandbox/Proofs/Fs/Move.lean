import StagedSandbox.Proofs.Fs.Frame

/-!
# What a move does to the view

A move is refused for reasons that can be told beforehand (`Fs.checkMove`); otherwise it takes a
node away from one path and puts it at another (`Fs.Moved`).
-/

namespace StagedSandbox.Fs

/-- Why a move is refused, if it is. -/
def checkMove (fs : Fs) (source goal : Path) : Except FsError Unit :=
  if source = [] ∨ goal = [] then .error ⟨.invalidPath, source.render⟩
  else
    match fs.stat source with
    | .error e => .error ⟨e, source.render⟩
    | .ok moved =>
      if source = goal then .ok ()
      else if source.isPrefixOf goal then .error ⟨.invalidPath, goal.render⟩
      else
        match fs.stat goal.dropLast with
        | .error e => .error ⟨e, Path.render goal.dropLast⟩
        | .ok holder =>
          if holder.isDirectory then
            (checkGoal moved.isDirectory (fs.lookup goal)).mapError (⟨·, goal.render⟩)
          else .error ⟨.notDirectory, goal.render⟩

/-- After a move, the node that stood at the source stands at the goal. -/
def Moved (fs : Fs) (source goal : Path) (fs' : Fs) : Prop :=
  ∃ node between, fs.lookup source = some node ∧ fs.Replaced source none between ∧
    between.Replaced goal (some node) fs'

theorem Moved.beside {fs fs' : Fs} {source goal other : Path} (h : fs.Moved source goal fs')
    (hsource : ¬ source <+: other) (hgoal : ¬ goal <+: other) : fs'.view other = fs.view other := by
  obtain ⟨node, between, -, hdetached, hattached⟩ := h
  rw [hattached.beside other hgoal, hdetached.beside other hsource]

theorem Moved.wellFormed {fs fs' : Fs} {source goal : Path} (h : fs.Moved source goal fs')
    (hfs : fs.WellFormed) (hsource : source.Named) (hgoal : goal.Named) : fs'.WellFormed := by
  obtain ⟨node, between, hnode, hdetached, hattached⟩ := h
  have hbetween := hdetached.wellFormed hfs hsource (by simp)
  refine hattached.wellFormed hbetween hgoal fun moved hmoved => ?_
  obtain rfl := Option.some.inj hmoved
  exact hfs.of_lookup hnode

theorem stat_eq_ok_iff {fs : Fs} {path : Path} {found : Metadata} :
    fs.stat path = .ok found ↔ ∃ node, fs.lookup path = some node ∧ node.metadata = found := by
  rw [stat]
  cases h : fs.find path with
  | error e =>
    have hnone : fs.lookup path = none := by rw [← toOption_find, h]; rfl
    simp [hnone, bind, Except.bind]
  | ok node =>
    rw [find_eq_ok_iff] at h
    simp [h, bind, Except.bind, pure, Except.pure]

theorem isDirectory_metadata {node : Node} :
    node.metadata.isDirectory = true ↔ ∃ children, node = .dir children := by
  cases node <;> simp [Node.metadata]

/-- Taking the node away and putting it down succeed once the checks have passed. -/
theorem moved_of_lookup {fs : Fs} {source goal : Path} {node : Node} {children : Fs}
    (hne : source ≠ []) (hnode : fs.lookup source = some node) (hgoal : goal ≠ [])
    (hunder : ¬ source <+: goal.dropLast)
    (hholder : fs.lookup goal.dropLast = some (.dir children)) :
    ∃ between fs', atParent source detach fs = .ok node between ∧
      (atParent goal fun name => attach name node) between = .ok () fs' ∧
      fs.Replaced source none between ∧ between.Replaced goal (some node) fs' := by
  have hdetach := follows_detach source fs
  rw [reach_of_lookup hne hnode] at hdetach
  obtain ⟨between, hrun, hdetached⟩ := hdetach
  -- the directory that is to hold the node does not lie within what was taken away
  have hview : between.view goal.dropLast = some .dir := by
    rw [hdetached.beside _ hunder]
    exact view_eq_dir_iff.2 ⟨children, hholder⟩
  obtain ⟨left, hleft⟩ := view_eq_dir_iff.1 hview
  have hattach := follows_attach goal node between
  rw [← List.dropLast_append_getLast hgoal, reach_concat_of_dir hleft] at hattach
  obtain ⟨fs', hrun', hattached⟩ := hattach
  rw [List.dropLast_append_getLast hgoal] at hrun' hattached
  exact ⟨between, fs', hrun, hrun', hdetached, hattached⟩

theorem run_atPath_of_ok {α : Type} {change : Change α} {fs fs' : Fs} {a : α} (path : Path)
    (h : change fs = .ok a fs') : atPath path change fs = .ok a fs' := by
  rw [atPath, EStateM.adaptExcept]
  rw [h]

theorem run_atPath_ask {α : Type} (path : Path) (question : Fs → Except Obstacle α) (fs : Fs) :
    atPath path (ask question) fs =
      match question fs with
      | .ok a => .ok a fs
      | .error e => .error ⟨e, path.render⟩ fs := by
  rw [atPath, EStateM.adaptExcept, ask]
  cases question fs <;> rfl

/-- What a move does. -/
theorem move_cases (fs : Fs) (source goal : Path) :
    match fs.checkMove source goal with
    | .error e => move source goal fs = .error e fs
    | .ok _ =>
      if source = goal then move source goal fs = .ok () fs
      else ∃ fs', move source goal fs = .ok () fs' ∧ fs.Moved source goal fs' := by
  rw [checkMove, move]
  by_cases hroot : source = [] ∨ goal = []
  · simp [hroot, Action.run_bind]
  obtain ⟨hsource, hgoal⟩ := not_or.1 hroot
  simp only [hroot, if_false, Action.run_bind, run_atPath_ask]
  cases hstat : fs.stat source with
  | error e => rfl
  | ok moved =>
    dsimp only
    by_cases hsame : source = goal
    · simp [hsame]
    simp only [hsame, if_false]
    by_cases hunder : source.isPrefixOf goal = true
    · simp only [hunder, if_true, Action.run_bind, Action.run_throw]
    simp only [hunder, Bool.false_eq_true, if_false, Action.run_bind, run_atPath_ask]
    cases hholder : fs.stat goal.dropLast with
    | error e => rfl
    | ok holder =>
      dsimp only
      by_cases hdir : holder.isDirectory = true
      · simp only [hdir, Bool.not_true, Bool.false_eq_true, if_true, if_false, Action.run_bind,
          run_atPath_ask]
        cases hcheck : checkGoal moved.isDirectory (fs.lookup goal) with
        | error e => rfl
        | ok _ =>
          obtain ⟨node, hnode, -⟩ := stat_eq_ok_iff.1 hstat
          obtain ⟨above, habove, habove'⟩ := stat_eq_ok_iff.1 hholder
          obtain ⟨children, rfl⟩ := isDirectory_metadata.1 (habove' ▸ hdir)
          have hbelow : ¬ source <+: goal.dropLast := fun h =>
            hunder (List.isPrefixOf_iff_prefix.2 (h.trans (List.dropLast_prefix goal)))
          obtain ⟨between, fs', hdetach, hattach, hdetached, hattached⟩ :=
            moved_of_lookup hsource hnode hgoal hbelow habove
          dsimp only [Except.mapError]
          rw [run_atPath_of_ok source hdetach]
          dsimp only
          rw [run_atPath_of_ok goal hattach]
          exact ⟨fs', rfl, node, between, hnode, hdetached, hattached⟩
      · have hfile : holder.isDirectory = false := by simpa using hdir
        simp only [hfile, Bool.not_false, Bool.false_eq_true, if_true, if_false, Action.run_bind,
          Action.run_throw]

end StagedSandbox.Fs
