import StagedSandbox.Proofs.Fs.FlatMap
import StagedSandbox.Proofs.Fs.Move
import StagedSandbox.Proofs.Path

/-!
# Changes in the view

Every change of a file system shows as the change of flat maps of the same name (`Fs.Shows`): it is
refused for the reason that the view tells, and then leaves the file system as it was, or it leaves
the view that the flat map makes of the one before.
-/

namespace StagedSandbox

namespace Fs

/-- What a change does to a file system is what it does to the view. -/
def Shows {ε : Type} (change : EStateM ε Fs Unit) (flat : FlatMap → Except ε FlatMap) : Prop :=
  ∀ fs : Fs,
    match flat fs.view with
    | .error e => change fs = .error e fs
    | .ok m => ∃ fs', change fs = .ok () fs' ∧ fs'.view = m ∧ (fs.WellFormed → fs'.WellFormed)

end Fs

/-- A node with nothing below it. -/
def Node.Bare : Node → Prop
  | .file _ => True
  | .dir children => children = []

namespace Node.Bare

theorem lookup {node : Node} (h : node.Bare) {path : Path} (hne : path ≠ []) :
    node.lookup path = none := by
  obtain ⟨name, rest, rfl⟩ := List.exists_cons_of_ne_nil hne
  cases node with
  | file content => rfl
  | dir children =>
    obtain rfl : children = [] := h
    exact Fs.view_eq_none_iff.1 (Fs.view_empty hne)

theorem wellFormed {node : Node} (h : node.Bare) : node.WellFormed := by
  cases node with
  | file content => exact .file content
  | dir children =>
    obtain rfl : children = [] := h
    exact Fs.WellFormed.empty

end Node.Bare

namespace Fs

variable {fs fs' : Fs} {path : Path}

/-- Where nothing stands below the node that goes and the one that comes, only one path shows the
change. -/
theorem Replaced.view_eq_update {new : Option Node} (h : fs.Replaced path new fs')
    (hold : ∀ node, fs.lookup path = some node → node.Bare)
    (hnew : ∀ node, new = some node → node.Bare) :
    fs'.view = Function.update fs.view path (new.map Node.surface) := by
  have hbelow : ∀ (found : Option Node), (∀ node, found = some node → node.Bare) →
      ∀ rest : Path, rest ≠ [] →
        (found.bind fun node => (node.lookup rest).map Node.surface) = none := by
    intro found hfound rest hrest
    cases found with
    | none => rfl
    | some node => simp [(hfound node rfl).lookup hrest]
  funext other
  by_cases hother : other = path
  · subst hother
    rw [Function.update_self, view, h.here]
  · rw [Function.update_of_ne hother]
    by_cases hunder : path <+: other
    · obtain ⟨rest, rfl⟩ := hunder
      have hrest : rest ≠ [] := by
        rintro rfl
        exact hother (List.append_nil path)
      rw [view_append, view_append, h.here, hbelow new hnew rest hrest,
        hbelow (fs.lookup path) hold rest hrest]
    · exact h.beside other hunder

/-- So it is where a file is made, or takes the place of another one. -/
theorem Replaced.view_eq_update_file {content : Bytes}
    (h : fs.Replaced path (some (.file content)) fs') (hold : fs.view path ≠ some .dir) :
    fs'.view = Function.update fs.view path (some (.file content)) := by
  refine h.view_eq_update ?_ fun node hnode => ?_
  · intro node hnode
    cases node with
    | file old => trivial
    | dir children => exact absurd (view_eq_dir_iff.mpr ⟨children, hnode⟩) hold
  · obtain rfl := Option.some.inj hnode
    trivial

/-- A change of one name shows if its decision can be made from the view and takes away and leaves
only nodes with nothing below them. -/
theorem Change.Follows.shows {change : Change Unit}
    {decision : Option Node → Except Obstacle (Unit × Option Node)}
    {flat : FlatMap → Option Surface → Except Obstacle (Option Surface)}
    (h : change.Follows path (·.bind decision)) (hnamed : path.Named)
    (hflat : ∀ (fs : Fs) (found : Option Node), fs.lookup path = found →
      match decision found with
      | .error e => flat fs.view (found.map Node.surface) = .error e
      | .ok (_, new) => flat fs.view (found.map Node.surface) = .ok (new.map Node.surface) ∧
        (∀ node, found = some node → node.Bare) ∧ ∀ node, new = some node → node.Bare) :
    Shows change fun m => m.replace path (flat m) := by
  intro fs
  have hfs := h fs
  dsimp only
  rw [FlatMap.replace, reach_view]
  cases hreach : fs.reach path with
  | error e =>
    rw [hreach] at hfs
    exact hfs
  | ok found =>
    rw [hreach] at hfs
    have hfound := hflat fs found (lookup_of_reach hreach)
    dsimp only [Except.map, Except.bind] at hfs ⊢
    cases hdec : decision found with
    | error e =>
      rw [hdec] at hfs hfound
      rw [hfound]
      exact hfs
    | ok outcome =>
      obtain ⟨⟨⟩, new⟩ := outcome
      rw [hdec] at hfs hfound
      obtain ⟨hsurface, hold, hnew⟩ := hfound
      obtain ⟨fs', hrun, hreplaced⟩ := hfs
      rw [hsurface]
      refine ⟨fs', hrun, hreplaced.view_eq_update ?_ hnew, fun hwf => ?_⟩
      · rwa [lookup_of_reach hreach]
      · exact hreplaced.wellFormed hwf hnamed fun node hnode => (hnew node hnode).wellFormed

/-! ### Contents -/

theorem overlay_eq_overlaid (old data : Bytes) (start : Nat) :
    old.overlay start data = Bytes.ofList (FlatMap.overlaid old.list start data.list) := by
  rw [← Bytes.list_inj, Bytes.list_ofList, Bytes.overlay, FlatMap.overlaid, FlatMap.padded,
    Bytes.length_list, Bytes.length_list]
  split
  · next hle =>
    rw [Bytes.list_copySlice, Nat.sub_eq_zero_of_le hle, List.replicate_zero, List.append_nil]
  · next hlt =>
    have htake : old.list.take (start + data.size) = old.list :=
      List.take_of_length_le (by rw [Bytes.length_list]; omega)
    rw [Bytes.list_copySlice, Bytes.list_resize, htake]

theorem resize_eq_resized (old : Bytes) (size : Nat) :
    old.resize size = Bytes.ofList (FlatMap.resized old.list size) := by
  rw [← Bytes.list_inj, Bytes.list_ofList, Bytes.list_resize, FlatMap.resized, FlatMap.padded,
    List.take_append, List.take_replicate, Bytes.length_list, Nat.min_self]

/-! ### Changes of one name -/

theorem shows_makeDir (hnamed : path.Named) :
    Shows (makeDir path) (FlatMap.makeDir · path) := by
  refine (follows_makeDir path).shows hnamed fun fs found _ => ?_
  cases found with
  | none => exact ⟨rfl, by simp, by simp [Node.Bare]⟩
  | some node => rfl

theorem shows_write (hnamed : path.Named) (data : Bytes) (mode : WriteMode) :
    Shows (write path data mode) (FlatMap.write · path data mode) := by
  have hsized : ∀ (found : Option Node) (content : Bytes),
      (∀ node, found = some node → node.Bare) →
      match Decide.sized content with
      | .error e => FlatMap.sized content = .error e
      | .ok (_, new) => FlatMap.sized content = .ok (new.map Node.surface) ∧
        (∀ node, found = some node → node.Bare) ∧ ∀ node, new = some node → node.Bare := by
    intro found content hfound
    rw [Decide.sized, FlatMap.sized]
    by_cases hsize : content.size ≤ maxFileSize
    · simp only [hsize, if_true]
      exact ⟨rfl, hfound, by simp [Node.Bare]⟩
    · simp only [hsize, if_false]
  refine (follows_write path data mode).shows hnamed fun fs found _ => ?_
  cases found with
  | none => exact hsized none data (by simp)
  | some node =>
    cases node with
    | dir children => rfl
    | file old =>
      have hold : ∀ node, some (Node.file old) = some node → node.Bare := by simp [Node.Bare]
      cases mode with
      | overwrite => exact hsized _ data hold
      | append => exact hsized _ (old ++ data) hold

theorem shows_place (hnamed : path.Named) (data : Bytes) :
    Shows (place path data) (FlatMap.place · path data) := by
  refine (follows_place path data).shows hnamed fun fs found _ => ?_
  cases found with
  | none => exact ⟨rfl, by simp, by simp [Node.Bare]⟩
  | some node =>
    cases node with
    | dir children => rfl
    | file old => exact ⟨rfl, by simp [Node.Bare], by simp [Node.Bare]⟩

theorem shows_edit (hnamed : path.Named) {change : Bytes → Bytes}
    {edited : List UInt8 → List UInt8}
    (h : ∀ old, change old = Bytes.ofList (edited old.list)) :
    Shows (edit path change) (FlatMap.edit · path edited) := by
  refine (follows_edit path change).shows hnamed fun fs found _ => ?_
  cases found with
  | none => rfl
  | some node =>
    cases node with
    | dir children => rfl
    | file old =>
      refine ⟨?_, by simp [Node.Bare], by simp [Node.Bare]⟩
      simp [h]

theorem shows_removeFile (hnamed : path.Named) :
    Shows (removeFile path) (FlatMap.removeFile · path) := by
  refine (follows_removeFile path).shows hnamed fun fs found _ => ?_
  cases found with
  | none => rfl
  | some node =>
    cases node with
    | dir children => rfl
    | file old => exact ⟨rfl, by simp [Node.Bare], by simp⟩

/-- A directory is empty if nothing is in view in it. -/
theorem emptyAt_view_iff {children : Fs} (h : fs.lookup path = some (.dir children)) :
    FlatMap.EmptyAt fs.view path ↔ children = [] := by
  have hview : ∀ name, fs.view (path ++ [name]) = (Table.get? children name).map Node.surface := by
    intro name
    rw [view, lookup_concat_of_dir h]
  simp only [FlatMap.EmptyAt, hview]
  constructor
  · intro hnone
    cases children with
    | nil => rfl
    | cons entry rest =>
      have hentry := hnone entry.1
      simp [Table.get?] at hentry
  · rintro rfl name
    rfl

theorem shows_removeDir (hnamed : path.Named) :
    Shows (removeDir path) (FlatMap.removeDir · path) := by
  refine (follows_removeDir path).shows hnamed fun fs found hfound => ?_
  cases found with
  | none => rfl
  | some node =>
    cases node with
    | file old => rfl
    | dir children =>
      have hempty := emptyAt_view_iff hfound
      cases children with
      | nil =>
        refine ⟨if_pos (hempty.2 rfl), by simp [Node.Bare], by simp⟩
      | cons entry rest => exact if_neg fun h => by simpa using hempty.1 h

/-! ### Making directories -/

theorem clear_iff_not_barred : fs.Clear path ↔ FlatMap.barred fs.view path = false := by
  rw [Clear, FlatMap.barred, List.any_eq_false]
  refine forall_congr' fun above => ?_
  rw [List.mem_inits]
  refine imp_congr_right fun _ => ?_
  cases fs.view above with
  | none => simp
  | some stands => cases stands <;> simp [Surface.isDir]

/-- A file on the way is found before any directory is made. -/
theorem makeDirs_of_barred (h : FlatMap.barred fs.view path = true) :
    makeDirs path fs = .error .notDirectory fs := by
  induction path generalizing fs with
  | nil => simp [FlatMap.barred, Surface.isDir] at h
  | cons name rest ih =>
    unfold makeDirs
    rw [barred_view_cons] at h
    cases hget : fs.get? name with
    | none => simp [FlatMap.barred, view_cons_of_none hget] at h
    | some node =>
      cases node with
      | file content => rfl
      | dir children =>
        have hview : (fun below => fs.view (name :: below)) = Fs.view children :=
          funext fun below => view_cons_of_dir hget below
        rw [hview] at h
        dsimp only
        rw [ih h]
        dsimp only
        rw [Table.set_get? fs hget]

theorem shows_makeDirs (hnamed : path.Named) :
    Shows (makeDirs path) (FlatMap.makeDirs · path) := by
  intro fs
  dsimp only
  rw [FlatMap.makeDirs]
  by_cases hbarred : FlatMap.barred fs.view path = true
  · rw [if_pos hbarred]
    exact makeDirs_of_barred hbarred
  · obtain ⟨fs', hrun, hextended⟩ :=
      makeDirs_of_clear (clear_iff_not_barred.2 (Bool.eq_false_iff.2 hbarred))
    rw [if_neg hbarred]
    exact ⟨fs', hrun, funext hextended.view, fun hwf => hextended.wellFormed hwf hnamed⟩

/-! ### Moving -/

theorem checkGoal_view (fs : Fs) (moves : Node) (goal : Path) :
    FlatMap.checkGoal fs.view moves.surface goal =
      checkGoal moves.isDir (fs.lookup goal) := by
  have hview : fs.view goal = (fs.lookup goal).map Node.surface := rfl
  rw [FlatMap.checkGoal.eq_def, hview]
  cases hgoal : fs.lookup goal with
  | none => cases moves <;> rfl
  | some node =>
    cases node with
    | file content => cases moves <;> rfl
    | dir children =>
      cases moves with
      | file content => cases children <;> rfl
      | dir below =>
        have hempty := emptyAt_view_iff hgoal
        cases children with
        | nil => exact if_pos (hempty.2 rfl)
        | cons entry rest => exact if_neg fun h => by simpa using hempty.1 h

theorem checkMove_view (fs : Fs) (source goal : Path) :
    FlatMap.checkMove fs.view source goal = fs.checkMove source goal := by
  rw [FlatMap.checkMove, checkMove, find_view, find_view, stat, stat]
  split
  · rfl
  cases fs.find source with
  | error e => rfl
  | ok moves =>
    have hmoves : moves.metadata.isDirectory = moves.isDir := by cases moves <;> rfl
    dsimp only [Except.map, bind, Except.bind, pure, Except.pure]
    simp only [List.isPrefixOf_iff_prefix]
    split
    · rfl
    split
    · rfl
    cases fs.find goal.dropLast with
    | error e => rfl
    | ok holder =>
      cases holder with
      | file content => rfl
      | dir children =>
        dsimp only [Node.surface_dir, Node.metadata]
        rw [checkGoal_view, if_pos rfl, ← hmoves]
        rfl

/-- After a move, what was at the source and below it is seen at the goal and below it. -/
theorem Moved.view_eq {source goal : Path} (h : fs.Moved source goal fs') (other : Path) :
    fs'.view other =
      if goal <+: other then fs.view (source ++ other.drop goal.length)
      else if source <+: other then none
      else fs.view other := by
  obtain ⟨node, between, hnode, hdetached, hattached⟩ := h
  split
  · next hgoal =>
    obtain ⟨rest, rfl⟩ := hgoal
    rw [List.drop_left, view_append, view_append, hattached.here, hnode]
  · next hgoal =>
    rw [hattached.beside other hgoal]
    split
    · next hsource =>
      obtain ⟨rest, rfl⟩ := hsource
      rw [view_append, hdetached.here]
      rfl
    · next hsource => exact hdetached.beside other hsource

theorem shows_move {source goal : Path} (hsource : source.Named) (hgoal : goal.Named) :
    Shows (move source goal) (FlatMap.move · source goal) := by
  intro fs
  have hmove := move_cases fs source goal
  dsimp only
  rw [FlatMap.move, checkMove_view]
  cases hcheck : fs.checkMove source goal with
  | error e =>
    rw [hcheck] at hmove
    exact hmove
  | ok _ =>
    rw [hcheck] at hmove
    dsimp only [Except.map] at hmove ⊢
    split at hmove
    · next hsame =>
      subst hsame
      refine ⟨fs, hmove, funext fun other => ?_, id⟩
      split
      · next hunder =>
        obtain ⟨rest, rfl⟩ := hunder
        rw [List.drop_left]
      · rfl
    · obtain ⟨fs', hrun, hmoved⟩ := hmove
      exact ⟨fs', hrun, funext hmoved.view_eq, fun hwf => hmoved.wellFormed hwf hsource hgoal⟩

end Fs

end StagedSandbox
