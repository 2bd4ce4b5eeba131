import StagedSandbox.Proofs.Fs.Change

/-!
# Making way

To make the directories of a path succeeds unless a file is in the way (`Fs.makeDirs_of_clear`).
`Fs.forceDir` and `Fs.forceFile` clear the way: a file on it gives place to an empty directory, and
all that stands below the path of a file goes.
-/

namespace StagedSandbox

namespace Fs

variable {fs : Fs} {path : Path}

/-! ### Putting a directory under a name -/

theorem view_cons_of_get? {fs fs' left : Fs} {name : String}
    (hname : fs'.get? name = some (.dir left))
    (hother : ∀ other, other ≠ name → fs'.get? other = fs.get? other) (first : String)
    (rest : Path) :
    fs'.view (first :: rest) =
      if first = name then left.view rest else fs.view (first :: rest) := by
  split
  · next hfirst => rw [hfirst, view_cons_of_dir hname]
  · next hfirst =>
    rw [view, view, lookup_cons_eq_bind, lookup_cons_eq_bind, hother first hfirst]

theorem view_cons_of_none {name : String} (h : fs.get? name = none) (rest : Path) :
    fs.view (name :: rest) = none := by
  rw [view, lookup_cons_eq_bind, h]
  rfl

theorem view_cons_of_file {name : String} {content : Bytes}
    (h : fs.get? name = some (.file content)) {rest : Path} (hrest : rest ≠ []) :
    fs.view (name :: rest) = none := by
  obtain ⟨next, more, rfl⟩ := List.exists_cons_of_ne_nil hrest
  rw [view, lookup_cons_eq_bind, h]
  rfl

theorem view_empty (hne : path ≠ []) : Fs.view [] path = none := by
  obtain ⟨name, rest, rfl⟩ := List.exists_cons_of_ne_nil hne
  exact view_cons_of_none rfl rest

theorem WellFormed.insert (h : fs.WellFormed) {name : String} (hname : Path.IsName name)
    {node : Node} (hnode : node.WellFormed) : WellFormed (fs.insert name node) := by
  have hget : (fs.insert name node).get? name = some node := Table.get?_insert_self _ _ _
  refine Change.Decided.wellFormed_left h hname (fun moved hmoved => ?_) hget
    (fun _ hother => Table.get?_insert_of_ne _ _ hother) fun horder => horder.insert name node
  exact Option.some.inj hmoved ▸ hnode

/-! ### Making directories -/

/-- No file stands at a path or on the way to it. -/
def Clear (fs : Fs) (path : Path) : Prop :=
  ∀ above, above <+: path → ∀ content, fs.view above ≠ some (.file content)

/-- What making the directories of a path leaves. -/
structure Extended (fs : Fs) (path : Path) (fs' : Fs) : Prop where
  view : ∀ other, fs'.view other = if other <+: path then some .dir else fs.view other
  wellFormed : fs.WellFormed → path.Named → fs'.WellFormed

theorem Clear.of_cons {name : String} {rest : Path} {children : Fs} (h : fs.Clear (name :: rest))
    (hget : fs.get? name = some (.dir children)) : Clear children rest := by
  intro above habove content
  rw [← view_cons_of_dir hget]
  exact h (name :: above) (List.cons_prefix_cons.2 ⟨rfl, habove⟩) content

theorem clear_empty (path : Path) : Clear [] path := by
  intro above _ content
  cases above with
  | nil => simp
  | cons name rest => simp [view_empty]

theorem Extended.cons {name : String} {rest : Path} {children left fs' : Fs}
    (hleft : Extended children rest left)
    (hview : ∀ other, other ≠ [] → fs.view (name :: other) = children.view other)
    (hname : fs'.get? name = some (.dir left))
    (hother : ∀ other, other ≠ name → fs'.get? other = fs.get? other)
    (hwf : fs.WellFormed → Path.IsName name → rest.Named → fs'.WellFormed) :
    fs.Extended (name :: rest) fs' := by
  refine ⟨fun other => ?_, fun hfs hnamed => ?_⟩
  · cases other with
    | nil => simp
    | cons first more =>
      rw [view_cons_of_get? hname hother, hleft.view]
      simp only [List.cons_prefix_cons]
      by_cases hfirst : first = name
      · subst hfirst
        simp only [if_true, true_and]
        by_cases hmore : more = []
        · simp [hmore]
        · rw [hview more hmore]
      · simp [hfirst]
  · exact hwf hfs (hnamed name (List.mem_cons_self ..))
      fun part hpart => hnamed part (List.mem_cons_of_mem _ hpart)

/-- Where no file is in the way, the directories of a path can be made. -/
theorem makeDirs_of_clear (h : fs.Clear path) :
    ∃ fs', makeDirs path fs = .ok () fs' ∧ fs.Extended path fs' := by
  induction path generalizing fs with
  | nil =>
    refine ⟨fs, rfl, fun other => ?_, fun hwf _ => hwf⟩
    cases other <;> simp
  | cons name rest ih =>
    unfold makeDirs
    cases hget : fs.get? name with
    | none =>
      obtain ⟨left, hrun, hleft⟩ := ih (clear_empty rest)
      dsimp only
      rw [hrun]
      refine ⟨_, rfl, hleft.cons (fun other hother => ?_) (Table.get?_insert_self _ _ _)
        (fun _ hother => Table.get?_insert_of_ne _ _ hother) fun hwf hname hrest => ?_⟩
      · rw [view_cons_of_none hget, view_empty hother]
      · exact hwf.insert hname (hleft.wellFormed WellFormed.empty hrest)
    | some node =>
      cases node with
      | file content =>
        refine absurd ?_ (h [name] (by simp) content)
        rw [view_singleton, hget]
        rfl
      | dir children =>
        obtain ⟨left, hrun, hleft⟩ := ih (h.of_cons hget)
        dsimp only
        rw [hrun]
        refine ⟨_, rfl, hleft.cons (fun other _ => view_cons_of_dir hget other)
          (Table.get?_set_self _ _ (by simp [hget]))
          (fun _ hother => Table.get?_set_of_ne _ _ hother) fun hwf _ hrest => ?_⟩
        exact hwf.set (hleft.wellFormed (Node.WellFormed.of_get? hwf hget) hrest)

/-! ### Clearing the way -/

/-- The content of the directory under a name, nothing if none is there. -/
def childrenAt (fs : Fs) (name : String) : Fs :=
  match fs.get? name with
  | some (.dir children) => children
  | _ => []

/-- Make each name on a path a directory. -/
def forceDir (fs : Fs) : Path → Fs
  | [] => fs
  | name :: rest => fs.insert name (.dir (forceDir (fs.childrenAt name) rest))

/-- Make each name on a path a directory, and the last one a file in the place of all that stands
there. -/
def forceFile (fs : Fs) (content : Bytes) : Path → Fs
  | [] => fs
  | [name] => fs.insert name (.file content)
  | name :: rest => fs.insert name (.dir (forceFile (fs.childrenAt name) content rest))

theorem view_childrenAt (fs : Fs) (name : String) {path : Path} (hne : path ≠ []) :
    (fs.childrenAt name).view path = fs.view (name :: path) := by
  rw [childrenAt]
  split
  · next children hget => exact (view_cons_of_dir hget path).symm
  · next hget =>
    rw [view_empty hne]
    cases h : fs.get? name with
    | none => exact (view_cons_of_none h path).symm
    | some node =>
      cases node with
      | file content => exact (view_cons_of_file h hne).symm
      | dir children => exact absurd h (hget children)

theorem WellFormed.childrenAt (h : fs.WellFormed) (name : String) :
    (fs.childrenAt name).WellFormed := by
  rw [Fs.childrenAt]
  split
  · next children hget => exact Node.WellFormed.of_get? h hget
  · exact WellFormed.empty

theorem extended_forceDir (fs : Fs) (path : Path) : fs.Extended path (fs.forceDir path) := by
  induction path generalizing fs with
  | nil =>
    refine ⟨fun other => ?_, fun hwf _ => hwf⟩
    cases other <;> simp [forceDir]
  | cons name rest ih =>
    refine (ih (fs.childrenAt name)).cons
      (fun other hother => (view_childrenAt fs name hother).symm)
      (Table.get?_insert_self _ _ _) (fun _ hother => Table.get?_insert_of_ne _ _ hother)
      fun hwf hname hrest => hwf.insert hname ?_
    exact (ih (fs.childrenAt name)).wellFormed (hwf.childrenAt name) hrest

theorem view_forceFile (fs : Fs) (content : Bytes) {path : Path} (hne : path ≠ [])
    (other : Path) :
    (fs.forceFile content path).view other =
      if other = path then some (.file content)
      else if other <+: path then some .dir
      else if path <+: other then none
      else fs.view other := by
  induction path generalizing fs other with
  | nil => exact absurd rfl hne
  | cons name rest ih =>
    cases other with
    | nil => simp
    | cons first more =>
      simp only [List.cons_prefix_cons, List.cons.injEq]
      cases rest with
      | nil =>
        by_cases hfirst : first = name
        · subst hfirst
          have hget := Table.get?_insert_self fs first (.file content)
          by_cases hmore : more = []
          · simp [hmore, forceFile, view_singleton, hget]
          · simp [hmore, forceFile, view_cons_of_file hget hmore]
        · have hget := Table.get?_insert_of_ne fs (Node.file content) hfirst
          simp only [hfirst, Ne.symm hfirst, false_and, if_false, forceFile]
          rw [view, view, lookup_cons_eq_bind, lookup_cons_eq_bind, hget]
      | cons next rest =>
        have hview := @view_cons_of_get? fs _ _ name (Table.get?_insert_self fs name
          (.dir ((fs.childrenAt name).forceFile content (next :: rest))))
          (fun _ hother => Table.get?_insert_of_ne _ _ hother) first more
        rw [forceFile, hview, ih (fs.childrenAt name) (by simp) more]
        · by_cases hfirst : first = name
          · subst hfirst
            simp only [if_true, true_and]
            by_cases hmore : more = []
            · simp [hmore]
            · rw [view_childrenAt fs first hmore]
          · simp [hfirst, Ne.symm hfirst]
        · simp

theorem wellFormed_forceFile (h : fs.WellFormed) (content : Bytes) {path : Path}
    (hnamed : path.Named) : (fs.forceFile content path).WellFormed := by
  induction path generalizing fs with
  | nil => exact h
  | cons name rest ih =>
    have hname := hnamed name (List.mem_cons_self ..)
    cases rest with
    | nil => exact h.insert hname (.file content)
    | cons next more =>
      refine h.insert hname (ih (h.childrenAt name) fun part hpart => ?_)
      exact hnamed part (List.mem_cons_of_mem _ hpart)

end Fs

end StagedSandbox
