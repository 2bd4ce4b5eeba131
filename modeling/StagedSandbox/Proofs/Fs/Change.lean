import Mathlib.Data.List.Basic
import StagedSandbox.Fs.Change
import StagedSandbox.Proofs.Action
import StagedSandbox.Proofs.Bytes
import StagedSandbox.Proofs.Fs.View

/-!
# What a change does to the view

A change of one name is decided by what stands under the name (`Change.Decided`). From this it
follows for every path what the change does in the file system (`Change.Decided.atParent`): it is
refused and leaves the file system as it was, or it puts a node, or none, at the path and leaves
all other paths alone (`Fs.Replaced`). Each change is such a decision, and a move is two of them.
-/

namespace StagedSandbox

variable {α : Type}

namespace Fs

/-! ### Putting back the content of a directory -/

/-- The file system with another content of the directory at a path. -/
def graft (fs : Fs) : Path → Fs → Fs
  | [], left => left
  | name :: rest, left =>
    match fs.get? name with
    | some (.dir children) => fs.set name (.dir (graft children rest left))
    | _ => fs

theorem graft_cons_of_dir {fs : Fs} {name : String} {children : Fs}
    (h : fs.get? name = some (.dir children)) (rest : Path) (left : Fs) :
    fs.graft (name :: rest) left = fs.set name (.dir (graft children rest left)) := by
  rw [graft, h]

/-- A directory on the way to another one. -/
theorem exists_dir_of_lookup_cons {fs : Fs} {name : String} {rest : Path} {children : Fs}
    (h : fs.lookup (name :: rest) = some (.dir children)) :
    ∃ between, fs.get? name = some (.dir between) ∧
      Fs.lookup between rest = some (.dir children) := by
  rw [lookup_cons_eq_bind, Option.bind_eq_some_iff] at h
  obtain ⟨node, hget, hrest⟩ := h
  cases node with
  | dir between => exact ⟨between, hget, hrest⟩
  | file content => cases rest <;> simp at hrest

theorem get?_graft_self {fs : Fs} {name : String} {children : Fs}
    (h : fs.get? name = some (.dir children)) (rest : Path) (left : Fs) :
    (fs.graft (name :: rest) left).get? name = some (.dir (graft children rest left)) := by
  rw [graft_cons_of_dir h, Table.get?_set_self]
  rw [h]
  rfl

theorem graft_self {fs : Fs} {path : Path} {children : Fs}
    (h : fs.lookup path = some (.dir children)) : fs.graft path children = fs := by
  induction path generalizing fs with
  | nil => exact (Node.dir.inj (Option.some.inj h)).symm
  | cons name rest ih =>
    obtain ⟨between, hget, hrest⟩ := exists_dir_of_lookup_cons h
    rw [graft_cons_of_dir hget, ih hrest, Table.set_get? fs hget]

theorem lookup_graft {fs : Fs} {path : Path} {children : Fs}
    (h : fs.lookup path = some (.dir children)) (left : Fs) :
    (fs.graft path left).lookup path = some (.dir left) := by
  induction path generalizing fs with
  | nil => rfl
  | cons name rest ih =>
    obtain ⟨between, hget, hrest⟩ := exists_dir_of_lookup_cons h
    rw [lookup_cons_eq_bind, get?_graft_self hget]
    exact ih hrest

/-- Of two contents put into a directory the later one stays. -/
theorem graft_graft {fs : Fs} {path : Path} {children : Fs}
    (h : fs.lookup path = some (.dir children)) (left left' : Fs) :
    (fs.graft path left).graft path left' = fs.graft path left' := by
  induction path generalizing fs with
  | nil => rfl
  | cons name rest ih =>
    obtain ⟨between, hget, hrest⟩ := exists_dir_of_lookup_cons h
    rw [graft_cons_of_dir (get?_graft_self hget rest left), graft_cons_of_dir hget,
      graft_cons_of_dir hget, Table.set_set, ih hrest]

/-- Only the content of the directory changes. -/
theorem view_graft_of_not_prefix {fs : Fs} {path other : Path} {children : Fs}
    (h : fs.lookup path = some (.dir children)) (left : Fs) (hother : ¬ path <+: other) :
    (fs.graft path left).view other = fs.view other := by
  induction path generalizing fs other with
  | nil => exact absurd List.nil_prefix hother
  | cons name rest ih =>
    obtain ⟨between, hget, hrest⟩ := exists_dir_of_lookup_cons h
    cases other with
    | nil => rfl
    | cons first more =>
      by_cases hfirst : first = name
      · subst hfirst
        have hmore : ¬ rest <+: more := fun hp => hother (List.cons_prefix_cons.2 ⟨rfl, hp⟩)
        rw [view_cons_of_dir (get?_graft_self hget rest left), view_cons_of_dir hget]
        exact ih hrest hmore
      · rw [view, view, lookup_cons_eq_bind, lookup_cons_eq_bind, graft_cons_of_dir hget,
          Table.get?_set_of_ne _ _ hfirst]

theorem WellFormed.set {fs : Fs} (h : fs.WellFormed) {name : String} {node : Node}
    (hnode : node.WellFormed) : WellFormed (fs.set name node) := by
  cases h with
  | dir order names nodes =>
    have horder := order.set name node
    have hget : ∀ entry ∈ Table.set fs name node, entry.2 = node ∨ entry ∈ fs := by
      intro entry hmem
      have hentry := horder.get?_of_mem hmem
      by_cases hname : entry.1 = name
      · cases hf : fs.get? name with
        | none =>
          rw [Table.get?_set_of_none node hf] at hmem
          exact Or.inr hmem
        | some old =>
          rw [hname, Table.get?_set_self fs node (by simp [hf])] at hentry
          exact Or.inl (Option.some.inj hentry).symm
      · rw [Table.get?_set_of_ne fs node hname] at hentry
        exact Or.inr (Table.mem_of_get? hentry)
    refine .dir horder (fun entry hmem => ?_) (fun entry hmem => ?_)
    · have hkey : entry.1 ∈ Table.keys fs := by
        rw [← Table.keys_set fs name node]
        exact List.mem_map_of_mem hmem
      obtain ⟨old, hold, heq⟩ := List.mem_map.1 hkey
      exact heq ▸ names old hold
    · rcases hget entry hmem with heq | hold
      · exact heq ▸ hnode
      · exact nodes entry hold

theorem WellFormed.graft {fs : Fs} (h : fs.WellFormed) {path : Path} {children left : Fs}
    (hpath : fs.lookup path = some (.dir children)) (hleft : left.WellFormed) :
    (fs.graft path left).WellFormed := by
  induction path generalizing fs with
  | nil => exact hleft
  | cons name rest ih =>
    obtain ⟨between, hget, hrest⟩ := exists_dir_of_lookup_cons hpath
    rw [graft_cons_of_dir hget]
    exact h.set (ih (Node.WellFormed.of_get? h hget) hrest)

/-! ### Reaching a directory -/

theorem within_of_dir {fs : Fs} {path : Path} {children : Fs}
    (h : fs.lookup path = some (.dir children)) (change : Change α) :
    within change path fs =
      match change children with
      | .ok a left => .ok a (fs.graft path left)
      | .error e left => .error e (fs.graft path left) := by
  induction path generalizing fs with
  | nil =>
    obtain rfl := Node.dir.inj (Option.some.inj h)
    show change fs = _
    cases change fs <;> rfl
  | cons name rest ih =>
    obtain ⟨between, hget, hrest⟩ := exists_dir_of_lookup_cons h
    unfold within
    rw [hget]
    dsimp only
    rw [ih hrest]
    cases change children with
    | ok a left => exact congrArg (EStateM.Result.ok a) (graft_cons_of_dir hget rest left).symm
    | error e left =>
      exact congrArg (EStateM.Result.error e) (graft_cons_of_dir hget rest left).symm

theorem within_of_error {fs : Fs} {path : Path} {e : Obstacle} (h : fs.find path = .error e)
    (change : Change α) : within change path fs = .error e fs := by
  induction path generalizing fs with
  | nil => simp [find] at h
  | cons name rest ih =>
    rw [find] at h
    unfold within
    cases hget : fs.get? name with
    | none =>
      rw [hget] at h
      obtain rfl := Except.error.inj h
      rfl
    | some node =>
      rw [hget] at h
      cases node with
      | dir children =>
        dsimp only at h ⊢
        rw [ih h]
        dsimp only
        rw [Table.set_get? fs hget]
      | file content =>
        dsimp only at h
        split at h
        · simp at h
        · obtain rfl := Except.error.inj h
          rfl

theorem within_of_file {fs : Fs} {path : Path} {content : Bytes}
    (h : fs.lookup path = some (.file content)) (change : Change α) :
    within change path fs = .error .notDirectory fs := by
  induction path generalizing fs with
  | nil => simp at h
  | cons name rest ih =>
    rw [lookup_cons_eq_bind, Option.bind_eq_some_iff] at h
    obtain ⟨node, hget, hrest⟩ := h
    unfold within
    rw [hget]
    cases node with
    | file content => rfl
    | dir children =>
      dsimp only
      rw [ih hrest]
      dsimp only
      rw [Table.set_get? fs hget]

/-- What stands under the last name of a path in the directory that holds it, or why that
directory cannot be reached. -/
def reach (fs : Fs) (path : Path) : Except Obstacle (Option Node) :=
  if path = [] then .error .invalidPath
  else
    match fs.find path.dropLast with
    | .ok (.dir _) => .ok (fs.lookup path)
    | .ok (.file _) => .error .notDirectory
    | .error e => .error e

@[simp] theorem reach_nil (fs : Fs) : fs.reach [] = .error .invalidPath := rfl

theorem reach_concat_of_dir {fs : Fs} {path : Path} {children : Fs}
    (h : fs.lookup path = some (.dir children)) (name : String) :
    fs.reach (path ++ [name]) = .ok (Table.get? children name) := by
  have hfind := find_eq_ok_iff.2 h
  simp [reach, hfind, lookup_concat_of_dir h]

theorem reach_concat_of_file {fs : Fs} {path : Path} {content : Bytes}
    (h : fs.lookup path = some (.file content)) (name : String) :
    fs.reach (path ++ [name]) = .error .notDirectory := by
  have hfind := find_eq_ok_iff.2 h
  simp [reach, hfind]

theorem reach_concat_of_error {fs : Fs} {path : Path} {e : Obstacle}
    (h : fs.find path = .error e) (name : String) :
    fs.reach (path ++ [name]) = .error e := by
  simp [reach, h]

/-- What stands anywhere but at the root can be reached. -/
theorem reach_of_lookup {fs : Fs} {path : Path} {node : Node} (hne : path ≠ [])
    (h : fs.lookup path = some node) : fs.reach path = .ok (some node) := by
  rcases List.eq_nil_or_concat' path with rfl | ⟨above, name, rfl⟩
  · exact absurd rfl hne
  · have hview : fs.view (above ++ [name]) ≠ none := by simp [view, h]
    obtain ⟨children, hdir⟩ := view_eq_dir_iff.1 (view_eq_dir_of_isPrefix (by simp) hview)
    rw [reach_concat_of_dir hdir, ← lookup_concat_of_dir hdir, h]

theorem lookup_of_reach {fs : Fs} {path : Path} {found : Option Node}
    (h : fs.reach path = .ok found) : fs.lookup path = found := by
  rw [reach] at h
  split at h
  · simp at h
  · split at h
    · exact Except.ok.inj h
    · simp at h
    · simp at h

/-- Something can be made where nothing stands in a directory. -/
theorem reach_eq_ok_none_iff {fs : Fs} {path : Path} :
    fs.reach path = .ok none ↔ fs.view path = none ∧ fs.view path.dropLast = some .dir := by
  constructor
  · intro hreach
    refine ⟨view_eq_none_iff.mpr (lookup_of_reach hreach), ?_⟩
    rw [reach] at hreach
    split at hreach
    · cases hreach
    · split at hreach
      · next children hfind => exact view_eq_dir_iff.mpr ⟨children, find_eq_ok_iff.mp hfind⟩
      · cases hreach
      · cases hreach
  · rintro ⟨habsent, hparent⟩
    obtain ⟨children, hdir⟩ := view_eq_dir_iff.mp hparent
    have hne : path ≠ [] := by
      rintro rfl
      cases habsent
    rw [reach, if_neg hne, find_eq_ok_iff.mpr hdir]
    exact congrArg Except.ok (view_eq_none_iff.mp habsent)

/-- Finding looks for a name where a change would put it. -/
theorem find_concat (fs : Fs) (above : Path) (name : String) :
    fs.find (above ++ [name]) =
      match fs.find above with
      | .error e => .error e
      | .ok (.file _) => .error .notDirectory
      | .ok (.dir children) =>
        match Table.get? children name with
        | none => .error .notFound
        | some node => .ok node := by
  induction above generalizing fs with
  | nil =>
    rw [List.nil_append, find, find]
    dsimp only
    cases fs.get? name with
    | none => rfl
    | some node => cases node <;> rfl
  | cons first rest ih =>
    rw [List.cons_append, find, find]
    cases fs.get? first with
    | none => rfl
    | some node =>
      cases node with
      | dir children => exact ih children
      | file content => by_cases hrest : rest = [] <;> simp [hrest]

/-- What is found below the root is what can be reached there. -/
theorem find_eq_reach {fs : Fs} {path : Path} (hne : path ≠ []) :
    fs.find path =
      match fs.reach path with
      | .error e => .error e
      | .ok none => .error .notFound
      | .ok (some node) => .ok node := by
  obtain ⟨above, name, rfl⟩ := (List.eq_nil_or_concat' path).resolve_left hne
  rw [find_concat, reach, if_neg hne, List.dropLast_concat]
  cases hfind : fs.find above with
  | error e => rfl
  | ok node =>
    cases node with
    | file content => rfl
    | dir children =>
      dsimp only
      rw [lookup_concat_of_dir (find_eq_ok_iff.1 hfind)]
      cases Table.get? children name <;> rfl

/-- A name that is missing in a directory is not found there. -/
theorem find_of_reach_none {fs : Fs} {path : Path} (h : fs.reach path = .ok none) :
    fs.find path = .error .notFound := by
  have hne : path ≠ [] := by
    rintro rfl
    simp at h
  rw [find_eq_reach hne, h]

/-! ### Changes of one name -/

/-- After a change, a node or none stands at a path, and all paths that do not lead through it
show what they did before. -/
structure Replaced (fs : Fs) (path : Path) (new : Option Node) (fs' : Fs) : Prop where
  here : fs'.lookup path = new
  beside : ∀ other, ¬ path <+: other → fs'.view other = fs.view other
  wellFormed : fs.WellFormed → path.Named → (∀ node, new = some node → node.WellFormed) →
    fs'.WellFormed

/-- A change of a name that is decided by what stands under it: it is refused, or answers and
leaves a node or none there. Other names are left alone. -/
def Change.Decided (change : String → Change α)
    (decision : Option Node → Except Obstacle (α × Option Node)) : Prop :=
  ∀ (name : String) (children : Fs),
    match decision (children.get? name) with
    | .error e => change name children = .error e children
    | .ok (a, new) =>
      ∃ left : Fs, change name children = .ok a left ∧ left.get? name = new ∧
        (∀ other, other ≠ name → left.get? other = children.get? other) ∧
        (Table.Increasing children → Table.Increasing left)

/-- A change of the file system that is decided by what can be reached at a path: it is refused and
changes nothing, or it answers and leaves a node or none at the path. -/
def Change.Follows (change : Change α) (path : Path)
    (decision : Except Obstacle (Option Node) → Except Obstacle (α × Option Node)) : Prop :=
  ∀ fs : Fs,
    match decision (fs.reach path) with
    | .error e => change fs = .error e fs
    | .ok (a, new) => ∃ fs', change fs = .ok a fs' ∧ fs.Replaced path new fs'

namespace Change.Decided

variable {change : String → Change α} {decision : Option Node → Except Obstacle (α × Option Node)}

theorem wellFormed_left {name : String} {children left : Fs} {new : Option Node}
    (h : WellFormed children) (hname : Path.IsName name)
    (hnew : ∀ node, new = some node → node.WellFormed) (hget : left.get? name = new)
    (hother : ∀ other, other ≠ name → left.get? other = children.get? other)
    (horder : Table.Increasing children → Table.Increasing left) : WellFormed left := by
  cases h with
  | dir order names nodes =>
    have hleft := horder order
    have hentry : ∀ entry ∈ left, entry.1 = name ∧ new = some entry.2 ∨ entry ∈ children := by
      intro entry hmem
      have hfound := hleft.get?_of_mem hmem
      by_cases heq : entry.1 = name
      · rw [heq, hget] at hfound
        exact Or.inl ⟨heq, hfound⟩
      · rw [hother _ heq] at hfound
        exact Or.inr (Table.mem_of_get? hfound)
    refine .dir hleft (fun entry hmem => ?_) (fun entry hmem => ?_)
    · rcases hentry entry hmem with ⟨heq, -⟩ | hold
      · exact heq ▸ hname
      · exact names entry hold
    · rcases hentry entry hmem with ⟨-, hfound⟩ | hold
      · exact hnew entry.2 hfound
      · exact nodes entry hold

/-- A change of one name in a directory shows at no path that does not lead through the name. -/
theorem view_graft_of_name {fs children left : Fs} {above other : Path} {name : String}
    (hfind : fs.lookup above = some (.dir children))
    (hother : ∀ other, other ≠ name → left.get? other = children.get? other)
    (hunder : ¬ above ++ [name] <+: other) : (fs.graft above left).view other = fs.view other := by
  by_cases habove : above <+: other
  · -- within the directory, another name leads to the path
    obtain ⟨rest, rfl⟩ := habove
    cases rest with
    | nil =>
      rw [List.append_nil, view, view, lookup_graft hfind, hfind]
      rfl
    | cons first more =>
      have hfirst : first ≠ name := by
        rintro rfl
        exact hunder ⟨more, by simp⟩
      rw [view, view, lookup_append_of_dir (lookup_graft hfind left),
        lookup_append_of_dir hfind, lookup_cons_eq_bind, lookup_cons_eq_bind, hother first hfirst]
  · exact view_graft_of_not_prefix hfind left habove

/-- What a change of one name does in the file system. -/
theorem atParent (h : Decided change decision) (path : Path) :
    Follows (Fs.atParent path change) path (·.bind decision) := by
  intro fs
  rcases List.eq_nil_or_concat' path with rfl | ⟨above, name, rfl⟩
  · rfl
  have hparent : Fs.atParent (above ++ [name]) change = within (change name) above := by
    simp [Fs.atParent]
  rw [hparent]
  cases hfind : fs.find above with
  | error e =>
    rw [reach_concat_of_error hfind]
    exact within_of_error hfind _
  | ok node =>
    rw [find_eq_ok_iff] at hfind
    cases node with
    | file content =>
      rw [reach_concat_of_file hfind]
      exact within_of_file hfind _
    | dir children =>
      rw [reach_concat_of_dir hfind, within_of_dir hfind]
      have hname := h name children
      show match decision (Table.get? children name) with
        | .error e => _
        | .ok (a, new) => _
      cases hdec : decision (Table.get? children name) with
      | error e =>
        rw [hdec] at hname
        dsimp only at hname ⊢
        rw [hname]
        dsimp only
        rw [graft_self hfind]
      | ok outcome =>
        obtain ⟨a, new⟩ := outcome
        rw [hdec] at hname
        obtain ⟨left, hleft, hget, hother, horder⟩ := hname
        dsimp only
        rw [hleft]
        refine ⟨_, rfl, ?_, fun other hunder => ?_, fun hwf hnamed hnew => ?_⟩
        · rw [lookup_concat_of_dir (lookup_graft hfind left), hget]
        · exact view_graft_of_name hfind hother hunder
        · exact hwf.graft hfind (wellFormed_left (hwf.of_lookup hfind) (hnamed name (by simp))
            hnew hget hother horder)

end Change.Decided

/-! ### The decision of each change -/

namespace Decide

def makeDir : Option Node → Except Obstacle (Unit × Option Node)
  | none => .ok ((), some (.dir []))
  | some _ => .error .alreadyExists

/-- Leave a file, unless it is too large. -/
def sized (content : Bytes) : Except Obstacle (Unit × Option Node) :=
  if content.size ≤ maxFileSize then .ok ((), some (.file content)) else .error .tooLarge

def write (data : Bytes) (mode : WriteMode) : Option Node → Except Obstacle (Unit × Option Node)
  | some (.dir _) => .error .isDirectory
  | some (.file old) =>
    match mode with
    | .overwrite => sized data
    | .append => sized (old ++ data)
  | none => sized data

def place (data : Bytes) : Option Node → Except Obstacle (Unit × Option Node)
  | some (.dir _) => .error .isDirectory
  | _ => .ok ((), some (.file data))

def edit (change : Bytes → Bytes) : Option Node → Except Obstacle (Unit × Option Node)
  | some (.file old) => .ok ((), some (.file (change old)))
  | some (.dir _) => .error .isDirectory
  | none => .error .notFound

def removeFile : Option Node → Except Obstacle (Unit × Option Node)
  | some (.file _) => .ok ((), none)
  | some (.dir _) => .error .isDirectory
  | none => .error .notFound

def removeDir : Option Node → Except Obstacle (Unit × Option Node)
  | some (.dir []) => .ok ((), none)
  | some (.dir _) => .error .notEmpty
  | some (.file _) => .error .notDirectory
  | none => .error .notFound

def detach : Option Node → Except Obstacle (Node × Option Node)
  | some node => .ok (node, none)
  | none => .error .notFound

def attach (node : Node) : Option Node → Except Obstacle (Unit × Option Node) :=
  fun _ => .ok ((), some node)

end Decide

theorem exists_insert (name : String) (children : Fs) (a : α) (node : Node) :
    ∃ left : Fs, (.ok a (children.insert name node) : EStateM.Result Obstacle Fs α) = .ok a left ∧
      left.get? name = some node ∧
      (∀ other, other ≠ name → left.get? other = children.get? other) ∧
      (Table.Increasing children → Table.Increasing left) :=
  ⟨_, rfl, Table.get?_insert_self _ _ _, fun _ h => Table.get?_insert_of_ne _ _ h,
    fun h => h.insert _ _⟩

theorem exists_set {name : String} {children : Fs} {old : Node} (h : children.get? name = some old)
    (a : α) (node : Node) :
    ∃ left : Fs, (.ok a (children.set name node) : EStateM.Result Obstacle Fs α) = .ok a left ∧
      left.get? name = some node ∧
      (∀ other, other ≠ name → left.get? other = children.get? other) ∧
      (Table.Increasing children → Table.Increasing left) :=
  ⟨_, rfl, Table.get?_set_self _ _ (by simp [h]), fun _ h => Table.get?_set_of_ne _ _ h,
    fun h => h.set _ _⟩

theorem exists_erase (name : String) (children : Fs) (a : α) :
    ∃ left : Fs, (.ok a (children.erase name) : EStateM.Result Obstacle Fs α) = .ok a left ∧
      left.get? name = none ∧
      (∀ other, other ≠ name → left.get? other = children.get? other) ∧
      (Table.Increasing children → Table.Increasing left) :=
  ⟨_, rfl, Table.get?_erase_self _ _, fun _ h => Table.get?_erase_of_ne _ h, fun h => h.erase _⟩

theorem follows_makeDir (path : Path) : (makeDir path).Follows path (·.bind Decide.makeDir) := by
  refine Change.Decided.atParent (fun name children => ?_) path
  cases hget : children.get? name with
  | none =>
    have hfree : ¬ children.contains name := by simp [Table.contains, hget]
    simp only [Decide.makeDir, Action.run_bind, Action.run_get]
    rw [if_neg hfree]
    exact exists_insert name children () (.dir [])
  | some node =>
    simp [Decide.makeDir, Action.run_bind, Table.contains, hget]

theorem follows_write (path : Path) (data : Bytes) (mode : WriteMode) :
    (write path data mode).Follows path (·.bind (Decide.write data mode)) := by
  refine Change.Decided.atParent (fun name children => ?_) path
  simp only [Action.run_bind, Action.run_get]
  cases hget : children.get? name with
  | none =>
    by_cases hsize : data.size ≤ maxFileSize
    · simp only [Decide.write, Decide.sized, checkSize, hsize, if_true, Action.run_bind,
        Action.run_pure, Action.run_modify]
      exact exists_insert name children () (.file data)
    · simp [Decide.write, Decide.sized, checkSize, hsize, Action.run_bind]
  | some node =>
    cases node with
    | dir below => rfl
    | file old =>
      cases mode with
      | overwrite =>
        by_cases hsize : data.size ≤ maxFileSize
        · simp only [Decide.write, Decide.sized, checkSize, hsize, if_true, Action.run_bind,
            Action.run_pure, Action.run_modify]
          exact exists_set hget () (.file data)
        · simp [Decide.write, Decide.sized, checkSize, hsize, Action.run_bind]
      | append =>
        by_cases hsize : old.size + data.size ≤ maxFileSize
        · simp only [Decide.write, Decide.sized, ByteArray.size_append, checkSize, hsize, if_true,
            Action.run_bind, Action.run_pure, Action.run_modify]
          exact exists_set hget () (.file (old ++ data))
        · simp [Decide.write, Decide.sized, checkSize, hsize, Action.run_bind]

theorem follows_place (path : Path) (data : Bytes) :
    (place path data).Follows path (·.bind (Decide.place data)) := by
  refine Change.Decided.atParent (fun name children => ?_) path
  simp only [Action.run_bind, Action.run_get]
  cases hget : children.get? name with
  | none => exact exists_insert name children () (.file data)
  | some node =>
    cases node with
    | dir below => rfl
    | file old => exact exists_insert name children () (.file data)

theorem follows_edit (path : Path) (change : Bytes → Bytes) :
    (edit path change).Follows path (·.bind (Decide.edit change)) := by
  refine Change.Decided.atParent (fun name children => ?_) path
  simp only [Action.run_bind, Action.run_get]
  cases hget : children.get? name with
  | none => rfl
  | some node =>
    cases node with
    | dir below => rfl
    | file old => exact exists_set hget () (.file (change old))

/-- A size that no file may have is refused before the path is looked at. -/
theorem follows_checkSize {change : Change α} {path : Path}
    {decision : Except Obstacle (Option Node) → Except Obstacle (α × Option Node)}
    (h : change.Follows path decision) (size : Nat) :
    Change.Follows (do checkSize size; change) path fun found =>
      if size ≤ maxFileSize then decision found else .error .tooLarge := by
  intro fs
  by_cases hsize : size ≤ maxFileSize
  · simp only [checkSize, hsize, if_true]
    exact h fs
  · simp [checkSize, hsize, Action.run_bind]

theorem follows_writeAt (path : Path) (start : Nat) (data : Bytes) :
    (writeAt path start data).Follows path fun found =>
      if start + data.size ≤ maxFileSize then found.bind (Decide.edit (·.overlay start data))
      else .error .tooLarge :=
  follows_checkSize (follows_edit path _) _

theorem follows_truncate (path : Path) (size : Nat) :
    (truncate path size).Follows path fun found =>
      if size ≤ maxFileSize then found.bind (Decide.edit (·.resize size)) else .error .tooLarge :=
  follows_checkSize (follows_edit path _) _

theorem follows_removeFile (path : Path) :
    (removeFile path).Follows path (·.bind Decide.removeFile) := by
  refine Change.Decided.atParent (fun name children => ?_) path
  simp only [Action.run_bind, Action.run_get]
  cases hget : children.get? name with
  | none => rfl
  | some node =>
    cases node with
    | dir below => rfl
    | file old => exact exists_erase name children ()

theorem follows_removeDir (path : Path) :
    (removeDir path).Follows path (·.bind Decide.removeDir) := by
  refine Change.Decided.atParent (fun name children => ?_) path
  simp only [Action.run_bind, Action.run_get]
  cases hget : children.get? name with
  | none => rfl
  | some node =>
    cases node with
    | dir below =>
      cases below with
      | nil => exact exists_erase name children ()
      | cons first rest => rfl
    | file old => rfl

theorem follows_detach (path : Path) :
    (atParent path detach).Follows path (·.bind Decide.detach) := by
  refine Change.Decided.atParent (fun name children => ?_) path
  simp only [detach, Action.run_bind, Action.run_get]
  cases hget : children.get? name with
  | none => rfl
  | some node => exact exists_erase name children node

theorem follows_attach (path : Path) (node : Node) :
    (atParent path fun name => attach name node).Follows path (·.bind (Decide.attach node)) :=
  Change.Decided.atParent (fun name children => exists_insert name children () node) path

/-! ### One change after another -/

section Bind

variable {β : Type}

/-- Two changes of one directory, one after the other, are one change of it. -/
theorem within_bind (first : Change α) (second : α → Change β) (path : Path) :
    within (first >>= second) path = within first path >>= fun a => within (second a) path := by
  funext fs
  rw [Action.run_bind]
  cases hfind : fs.find path with
  | error e => rw [within_of_error hfind, within_of_error hfind]
  | ok node =>
    rw [find_eq_ok_iff] at hfind
    cases node with
    | file content => rw [within_of_file hfind, within_of_file hfind]
    | dir children =>
      rw [within_of_dir hfind, within_of_dir hfind, Action.run_bind]
      cases first children with
      | error e left => rfl
      | ok a left =>
        dsimp only
        rw [within_of_dir (lookup_graft hfind left)]
        simp only [graft_graft hfind]

theorem atParent_bind (first : String → Change α) (second : α → String → Change β) (path : Path) :
    (atParent path fun name => first name >>= fun a => second a name) =
      atParent path first >>= fun a => atParent path (second a) := by
  cases hlast : path.getLast? with
  | none =>
    simp only [atParent, hlast]
    rfl
  | some name => simp only [atParent, hlast, within_bind]

end Bind

/-- Two edits of a file are one edit of it. -/
theorem edit_bind_edit (path : Path) (first second : Bytes → Bytes) :
    (edit path first >>= fun _ => edit path second) = edit path (second ∘ first) := by
  rw [edit, edit, edit, ← atParent_bind]
  congr 1
  funext name fs
  simp only [Action.run_bind, Action.run_get]
  cases hget : fs.get? name with
  | none => rfl
  | some node =>
    cases node with
    | dir children => rfl
    | file old =>
      have hset : (fs.set name (.file (first old))).get? name = some (.file (first old)) :=
        Table.get?_set_self fs _ (by simp [hget])
      simp only [Action.run_modify, hset, Table.set_set, Function.comp_apply]

theorem writeAt_ok_iff {path : Path} {start : Nat} {data : Bytes} {fs fs' : Fs} :
    writeAt path start data fs = .ok () fs' ↔
      start + data.size ≤ maxFileSize ∧ edit path (·.overlay start data) fs = .ok () fs' := by
  rw [writeAt, checkSize]
  split
  · next h => exact ⟨fun hrun => ⟨h, hrun⟩, And.right⟩
  · next h => exact ⟨nofun, fun hrun => absurd hrun.1 h⟩

/-- Bytes written in two parts, one behind the other, are as if written at once. -/
theorem writeAt_append {path : Path} {start : Nat} {first second : Bytes} {fs between fs' : Fs}
    (hfirst : writeAt path start first fs = .ok () between)
    (hsecond : writeAt path (start + first.size) second between = .ok () fs') :
    writeAt path start (first ++ second) fs = .ok () fs' := by
  obtain ⟨-, hfirst⟩ := writeAt_ok_iff.1 hfirst
  obtain ⟨hsize, hsecond⟩ := writeAt_ok_iff.1 hsecond
  rw [Nat.add_assoc, ← ByteArray.size_append] at hsize
  refine writeAt_ok_iff.2 ⟨hsize, ?_⟩
  have hedits := congrFun (edit_bind_edit path (·.overlay start first)
    (·.overlay (start + first.size) second)) fs
  rw [Action.run_bind_of_ok hfirst, hsecond] at hedits
  rw [hedits]
  congr 1
  funext old
  exact (Bytes.overlay_overlay old start first second).symm

end Fs

end StagedSandbox
