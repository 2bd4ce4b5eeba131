import Mathlib.Data.List.Basic
import StagedSandbox.Host.Tree
import StagedSandbox.Proofs.Table

/-!
# Writing the host's files

A file that was written is found through the path it was written to, links included
(`HostTree.find_of_write`), and files that stand at other places are found as before
(`HostTree.find_of_putFile`). Both rest on one fact: putting a file where a path may be written
to leaves all other places as they were, so that every path leads where it led before
(`HostTree.follow_of_putFile`).
-/

namespace StagedSandbox

/-! ### What stands at a place -/

/-- A node without what lies below it. -/
inductive HostSurface where
  | file (content : Bytes)
  | link (target : String)
  | dir

def HostNode.surface : HostNode → HostSurface
  | .file content => .file content
  | .link target => .link target
  | .dir _ => .dir

namespace HostDir

variable {here here' children : HostDir} {name : String} {place : Path}

/-- What stands at a place, without what lies below it. -/
def view (here : HostDir) (place : Path) : Option HostSurface :=
  (here.get? place).map HostNode.surface

/-- A file may be put at a place: in a directory that exists, where a file stands or nothing. -/
def Takes (here : HostDir) : Path → Prop
  | [] => False
  | [name] => ∀ node, Table.get? here name = some node → ∃ content, node = .file content
  | name :: rest => ∃ children, Table.get? here name = some (.dir children) ∧ Takes children rest

theorem get?_cons_of_dir (h : Table.get? here name = some (.dir children)) (rest : Path) :
    here.get? (name :: rest) = HostDir.get? children rest := by
  rw [get?, h]

theorem get?_singleton (here : HostDir) (name : String) :
    here.get? [name] = Table.get? here name := by
  rw [get?]
  cases h : Table.get? here name with
  | none => rfl
  | some node => cases node <;> rfl

theorem get?_cons_congr (h : Table.get? here name = Table.get? here' name) (rest : Path) :
    here.get? (name :: rest) = here'.get? (name :: rest) := by
  rw [get?, get?, h]

/-- Nothing lies below a file, or below nothing. -/
theorem get?_cons_of_not_dir {rest : Path} (hrest : rest ≠ [])
    (h : ∀ node, Table.get? here name = some node → ∃ content, node = .file content) :
    here.get? (name :: rest) = none := by
  rw [get?]
  cases hname : Table.get? here name with
  | none => rfl
  | some node =>
    obtain ⟨content, rfl⟩ := h node hname
    exact if_neg hrest

/-- The way to a directory leads through directories only. -/
theorem exists_dir_of_get?_cons {rest : Path}
    (h : here.get? (name :: rest) = some (.dir children)) :
    ∃ below, Table.get? here name = some (.dir below) ∧
      HostDir.get? below rest = some (.dir children) := by
  cases hname : Table.get? here name with
  | none => simp [get?, hname] at h
  | some node =>
    cases node with
    | dir below => exact ⟨below, rfl, by rwa [get?_cons_of_dir hname] at h⟩
    | file content => simp [get?, hname] at h
    | link target => simp [get?, hname] at h

theorem exists_dir_of_get?_append {rest : Path}
    (h : here.get? (place ++ rest) = some (.dir children)) :
    ∃ below, here.get? place = some (.dir below) := by
  induction place generalizing here with
  | nil => exact ⟨here, rfl⟩
  | cons first more ih =>
    obtain ⟨below, hfirst, hmore⟩ := exists_dir_of_get?_cons h
    rw [get?_cons_of_dir hfirst]
    exact ih hmore

theorem get?_append_of_dir (h : here.get? place = some (.dir children)) (rest : Path) :
    here.get? (place ++ rest) = HostDir.get? children rest := by
  induction place generalizing here with
  | nil =>
    obtain ⟨rfl⟩ := h
    rfl
  | cons first more ih =>
    obtain ⟨below, hfirst, hmore⟩ := exists_dir_of_get?_cons h
    rw [List.cons_append, get?_cons_of_dir hfirst]
    exact ih hmore

theorem get?_concat (h : here.get? place = some (.dir children)) (name : String) :
    here.get? (place ++ [name]) = Table.get? children name :=
  (get?_append_of_dir h [name]).trans (get?_singleton children name)

/-- Only below a directory does something lie. -/
theorem exists_dir_of_get?_ne_none {rest : Path} (hrest : rest ≠ [])
    (h : here.get? (place ++ rest) ≠ none) : ∃ below, here.get? place = some (.dir below) := by
  induction place generalizing here with
  | nil => exact ⟨here, rfl⟩
  | cons first more ih =>
    rw [List.cons_append, get?] at h
    rw [get?]
    cases hfirst : Table.get? here first with
    | none => simp [hfirst] at h
    | some node =>
      rw [hfirst] at h
      cases node with
      | dir below => exact ih h
      | file content | link target => exact absurd (if_neg (by simp [hrest])) h

theorem takes_cons_of_ne_nil {rest : Path} (hrest : rest ≠ []) :
    here.Takes (name :: rest) ↔
      ∃ below, Table.get? here name = some (.dir below) ∧ HostDir.Takes below rest := by
  cases rest with
  | nil => exact absurd rfl hrest
  | cons next more => exact Iff.rfl

theorem takes_concat (h : here.get? place = some (.dir children))
    (hfree : ∀ node, Table.get? children name = some node → ∃ content, node = .file content) :
    here.Takes (place ++ [name]) := by
  induction place generalizing here with
  | nil =>
    obtain ⟨rfl⟩ := h
    exact hfree
  | cons first rest ih =>
    obtain ⟨below, hfirst, hrest⟩ := exists_dir_of_get?_cons h
    exact (takes_cons_of_ne_nil (by simp)).2 ⟨below, hfirst, ih hrest⟩

/-! ### Putting a file -/

theorem put_cons_of_dir {rest : Path} (hrest : rest ≠ [])
    (h : Table.get? here name = some (.dir children)) (node : HostNode) :
    here.put node (name :: rest) =
      Table.insert here name (.dir (HostDir.put children node rest)) := by
  cases rest with
  | nil => exact absurd rfl hrest
  | cons next more =>
    rw [put, h]
    exact hrest

theorem view_of_takes (h : here.Takes place) :
    here.view place = none ∨ ∃ content, here.view place = some (.file content) := by
  induction place generalizing here with
  | nil => cases h
  | cons name rest ih =>
    by_cases hrest : rest = []
    · subst hrest
      rw [view, get?_singleton]
      cases hname : Table.get? here name with
      | none => exact .inl rfl
      | some node =>
        obtain ⟨content, rfl⟩ := h node hname
        exact .inr ⟨content, rfl⟩
    · obtain ⟨below, hname, hbelow⟩ := (takes_cons_of_ne_nil hrest).1 h
      rw [view, get?_cons_of_dir hname]
      exact ih hbelow

theorem view_put_self (h : here.Takes place) (content : Bytes) :
    (here.put (.file content) place).view place = some (.file content) := by
  induction place generalizing here with
  | nil => cases h
  | cons name rest ih =>
    by_cases hrest : rest = []
    · subst hrest
      rw [view, put, get?_singleton, Table.get?_insert_self]
      rfl
    · obtain ⟨below, hname, hbelow⟩ := (takes_cons_of_ne_nil hrest).1 h
      rw [put_cons_of_dir hrest hname, view,
        get?_cons_of_dir (Table.get?_insert_self here name _) rest]
      exact ih hbelow

/-- All other places are as they were. -/
theorem view_put_of_ne (h : here.Takes place) (content : Bytes) {other : Path}
    (hother : other ≠ place) : (here.put (.file content) place).view other = here.view other := by
  induction place generalizing here other with
  | nil => cases h
  | cons name rest ih =>
    cases other with
    | nil => rfl
    | cons name' rest' =>
      by_cases hname : name' = name
      · subst hname
        have hrest' : rest' ≠ rest := fun heq => hother (heq ▸ rfl)
        by_cases hrest : rest = []
        · subst hrest
          have hfile : ∀ node, Table.get? (Table.insert here name' (.file content)) name' =
              some node → ∃ content, node = .file content := by
            intro node hnode
            rw [Table.get?_insert_self] at hnode
            exact ⟨content, (Option.some.inj hnode).symm⟩
          rw [put, view, view, get?_cons_of_not_dir hrest' hfile, get?_cons_of_not_dir hrest' h]
        · obtain ⟨below, hbelow, htakes⟩ := (takes_cons_of_ne_nil hrest).1 h
          rw [put_cons_of_dir hrest hbelow, view, view,
            get?_cons_of_dir (Table.get?_insert_self here name' _) rest', get?_cons_of_dir hbelow]
          exact ih htakes hrest'
      · have hget : ∀ node, Table.get? (Table.insert here name node) name' =
            Table.get? here name' := fun node => Table.get?_insert_of_ne here node hname
        by_cases hrest : rest = []
        · subst hrest
          rw [put, view, view, get?_cons_congr (hget _)]
        · obtain ⟨below, hbelow, -⟩ := (takes_cons_of_ne_nil hrest).1 h
          rw [put_cons_of_dir hrest hbelow, view, view, get?_cons_congr (hget _)]

end HostDir

namespace HostTree

variable {tree tree' : HostTree} {place : Path} {text : String} {content : Bytes}

/-- What stands at a place, without what lies below it. -/
def view (tree : HostTree) (place : Path) : Option HostSurface := tree.root.view place

/-- A tree in which a file was put at a place where a file stood or nothing. -/
structure PutFile (tree : HostTree) (place : Path) (content : Bytes) (tree' : HostTree) : Prop where
  start : tree'.start = tree.start
  free : tree.view place = none ∨ ∃ old, tree.view place = some (.file old)
  here : tree'.view place = some (.file content)
  beside : ∀ other, other ≠ place → tree'.view other = tree.view other

theorem putFile_put (h : tree.root.Takes place) (content : Bytes) :
    tree.PutFile place content (tree.put (.file content) place) where
  start := rfl
  free := HostDir.view_of_takes h
  here := HostDir.view_put_self h content
  beside _ hother := HostDir.view_put_of_ne h content hother

theorem view_of_get? {node : HostNode} (h : tree.get? place = some node) :
    tree.view place = some node.surface := congrArg (Option.map HostNode.surface) h

theorem get?_of_view_dir (h : tree.view place = some .dir) :
    ∃ children, tree.get? place = some (.dir children) := by
  obtain ⟨node, hnode, hsurface⟩ := Option.map_eq_some_iff.1 h
  cases node with
  | dir children => exact ⟨children, hnode⟩
  | file content => cases hsurface
  | link target => cases hsurface

theorem get?_of_view_link {target : String} (h : tree.view place = some (.link target)) :
    tree.get? place = some (.link target) := by
  obtain ⟨node, hnode, hsurface⟩ := Option.map_eq_some_iff.1 h
  cases node with
  | link other =>
    obtain rfl : other = target := by simpa [HostNode.surface] using hsurface
    exact hnode
  | file content => cases hsurface
  | dir children => cases hsurface

theorem get?_of_view_file (h : tree.view place = some (.file content)) :
    tree.get? place = some (.file content) := by
  obtain ⟨node, hnode, hsurface⟩ := Option.map_eq_some_iff.1 h
  cases node with
  | file other =>
    obtain rfl : other = content := by simpa [HostNode.surface] using hsurface
    exact hnode
  | link target => cases hsurface
  | dir children => cases hsurface

namespace PutFile

variable {other : Path}

/-- What is neither a file nor missing stays as it was. -/
theorem view_eq (h : tree.PutFile place content tree') {surface : HostSurface}
    (hview : tree.view other = some surface) (hsurface : ∀ old, surface ≠ .file old) :
    tree'.view other = some surface := by
  have hne : other ≠ place := by
    rintro rfl
    obtain hfree | ⟨old, hfree⟩ := h.free
    · cases hview.symm.trans hfree
    · exact hsurface old (Option.some.inj (hview.symm.trans hfree))
  exact (h.beside other hne).trans hview

theorem get?_eq_dir (h : tree.PutFile place content tree') {children : List (String × HostNode)}
    (hdir : tree.get? other = some (.dir children)) :
    ∃ children', tree'.get? other = some (.dir children') :=
  get?_of_view_dir (h.view_eq (view_of_get? hdir) fun _ heq => nomatch heq)

theorem get?_eq_link (h : tree.PutFile place content tree') {target : String}
    (hlink : tree.get? other = some (.link target)) : tree'.get? other = some (.link target) :=
  get?_of_view_link (h.view_eq (view_of_get? hlink) fun _ heq => nomatch heq)

/-- Files stay files, the one that was put with another content. -/
theorem get?_eq_file (h : tree.PutFile place content tree') {old : Bytes}
    (hfile : tree.get? other = some (.file old)) : ∃ new, tree'.get? other = some (.file new) := by
  by_cases hother : other = place
  · exact ⟨content, get?_of_view_file (hother ▸ h.here)⟩
  · exact ⟨old, get?_of_view_file ((h.beside other hother).trans (view_of_get? hfile))⟩

/-- Where nothing stood, nothing stands but the file that was put. -/
theorem get?_eq_none_or_file (h : tree.PutFile place content tree')
    (hnone : tree.get? other = none) :
    tree'.get? other = none ∨ ∃ new, tree'.get? other = some (.file new) := by
  by_cases hother : other = place
  · exact .inr ⟨content, get?_of_view_file (hother ▸ h.here)⟩
  · have hview : tree'.view other = none :=
      (h.beside other hother).trans (congrArg (Option.map HostNode.surface) hnone)
    exact .inl (Option.map_eq_none_iff.1 hview)

end PutFile

/-! ### Following paths -/

section

variable {here : Path} {part : String} {children : List (String × HostNode)}

theorem follow_idle (hdir : tree.get? here = some (.dir children))
    (h : HostPath.isIdle part = true) (purpose : Purpose) (links : Nat) (rest : List String) :
    tree.follow purpose links here (part :: rest) = tree.follow purpose links here rest := by
  rw [follow, hdir]
  exact if_pos h

theorem follow_up (hdir : tree.get? here = some (.dir children)) (purpose : Purpose) (links : Nat)
    (rest : List String) :
    tree.follow purpose links here (".." :: rest) =
      tree.follow purpose links here.dropLast rest := by
  rw [follow, hdir]
  rfl

/-- Looking for a name in a directory. -/
theorem follow_name (hdir : tree.get? here = some (.dir children))
    (hidle : ¬HostPath.isIdle part = true) (hup : part ≠ "..")
    (hsize : ¬maxNameSize < part.utf8ByteSize) (links : Nat) (rest : List String) :
    tree.follow .find links here (part :: rest) =
      match tree.get? (here ++ [part]) with
      | none => if rest = [] then .ok (here ++ [part], none) else .error .notFound
      | some (.link target) =>
        match links with
        | 0 => .error .tooManyLinks
        | links + 1 => tree.follow .find links (origin here target) (Path.parts target ++ rest)
      | some _ => tree.follow .find links (here ++ [part]) rest := by
  have hfind : ¬(Purpose.find = .write ∧ rest ≠ [] ∧ ∀ part ∈ rest, part = "") :=
    fun hwrite => nomatch hwrite.1
  rw [follow, hdir]
  dsimp only
  rw [if_neg hidle, if_neg hup, if_neg hfind]
  refine (if_neg hsize).trans ?_
  cases tree.get? (here ++ [part]) with
  | none => rfl
  | some node => cases node <;> rfl

end

/-- What is answered stands at the place that is answered. -/
theorem found_of_follow {purpose : Purpose} {links : Nat} {here goal : Path} {parts : List String}
    {found : Option HostNode} (hfollow : tree.follow purpose links here parts = .ok (goal, found)) :
    found = tree.get? goal := by
  fun_induction follow tree purpose links here parts with
  | case1 links here =>
    obtain ⟨rfl, rfl⟩ := Prod.mk.inj (Except.ok.inj hfollow)
    rfl
  | case6 links here part children hdir hidle hup hsize hnone =>
    obtain ⟨rfl, rfl⟩ := Prod.mk.inj (Except.ok.inj hfollow)
    exact hnone.symm
  | case2 _ _ _ _ _ _ _ ih | case3 _ _ _ _ _ _ ih | case9 _ _ _ _ _ _ _ _ _ _ _ _ ih
  | case10 _ _ _ _ _ _ _ _ _ _ _ _ _ ih => exact ih hfollow
  | case4 | case5 | case7 | case8 | case11 => cases hfollow

/-- Every path leads where it led before. -/
theorem follow_of_putFile (h : tree.PutFile place content tree') {purpose : Purpose} {links : Nat}
    {here goal : Path} {parts : List String} {found : Option HostNode}
    (hfollow : tree.follow purpose links here parts = .ok (goal, found)) :
    tree'.follow .find links here parts = .ok (goal, tree'.get? goal) := by
  fun_induction follow tree purpose links here parts with
  | case1 links here =>
    obtain ⟨rfl, -⟩ := Prod.mk.inj (Except.ok.inj hfollow)
    rw [follow]
  | case2 links here part rest children hdir hidle ih =>
    obtain ⟨children', hdir'⟩ := h.get?_eq_dir hdir
    rw [follow_idle hdir' hidle]
    exact ih hfollow
  | case3 links here rest children hdir hidle ih =>
    obtain ⟨children', hdir'⟩ := h.get?_eq_dir hdir
    rw [follow_up hdir']
    exact ih hfollow
  | case6 links here part children hdir hidle hup hsize hnone =>
    obtain ⟨children', hdir'⟩ := h.get?_eq_dir hdir
    obtain ⟨rfl, -⟩ := Prod.mk.inj (Except.ok.inj hfollow)
    rw [follow_name hdir' hidle hup hsize]
    obtain hnone' | ⟨new, hnew⟩ := h.get?_eq_none_or_file hnone
    · rw [hnone']
      rfl
    · rw [hnew]
      dsimp only
      rw [follow, hnew]
  | case9 here part rest children hdir hidle hup hwrite hsize target hlink links ih =>
    obtain ⟨children', hdir'⟩ := h.get?_eq_dir hdir
    rw [follow_name hdir' hidle hup hsize, h.get?_eq_link hlink]
    exact ih hfollow
  | case10 links here part rest children hdir hidle hup hwrite hsize node hnotLink hnode ih =>
    obtain ⟨children', hdir'⟩ := h.get?_eq_dir hdir
    rw [follow_name hdir' hidle hup hsize]
    cases node with
    | file old =>
      obtain ⟨new, hnew⟩ := h.get?_eq_file hnode
      rw [hnew]
      exact ih hfollow
    | dir below =>
      obtain ⟨below', hbelow⟩ := h.get?_eq_dir hnode
      rw [hbelow]
      exact ih hfollow
    | link target => exact absurd rfl (hnotLink target)
  | case4 | case5 | case7 | case8 | case11 => cases hfollow

theorem exists_dir_dropLast {here : Path} {children : List (String × HostNode)}
    (h : tree.get? here = some (.dir children)) :
    ∃ above, tree.get? here.dropLast = some (.dir above) := by
  rcases List.eq_nil_or_concat' here with rfl | ⟨above, name, rfl⟩
  · exact ⟨children, h⟩
  · rw [List.dropLast_concat]
    exact HostDir.exists_dir_of_get?_append h

theorem takes_of_get? {here : Path} {part : String} {children : List (String × HostNode)}
    (hdir : tree.get? here = some (.dir children))
    (hfree : ∀ node, tree.get? (here ++ [part]) = some node → ∃ content, node = .file content) :
    tree.root.Takes (here ++ [part]) :=
  HostDir.takes_concat hdir fun node hnode =>
    hfree node ((HostDir.get?_concat hdir part).trans hnode)

/-- A path that does not lead to a directory leads to a place where a file may be put. -/
theorem takes_of_follow {purpose : Purpose} {links : Nat} {here goal : Path} {parts : List String}
    {found : Option HostNode} (hfollow : tree.follow purpose links here parts = .ok (goal, found))
    (hhere : (∃ children, tree.get? here = some (.dir children)) ∨ tree.root.Takes here)
    (hfound : ∀ children, found ≠ some (.dir children)) : tree.root.Takes goal := by
  fun_induction follow tree purpose links here parts with
  | case1 links here =>
    obtain ⟨rfl, rfl⟩ := Prod.mk.inj (Except.ok.inj hfollow)
    exact hhere.resolve_left fun ⟨children, hdir⟩ => hfound children hdir
  | case2 links here part rest children hdir hidle ih => exact ih hfollow hhere
  | case3 links here rest children hdir hidle ih =>
    exact ih hfollow (.inl (exists_dir_dropLast hdir))
  | case6 links here part children hdir hidle hup hsize hnone =>
    obtain ⟨rfl, -⟩ := Prod.mk.inj (Except.ok.inj hfollow)
    exact takes_of_get? hdir fun node hnode => nomatch hnone.symm.trans hnode
  | case9 here part rest children hdir hidle hup hwrite hsize target hlink links ih =>
    refine ih hfollow (.inl ?_)
    rw [origin]
    split
    · exact ⟨tree.root, rfl⟩
    · exact ⟨children, hdir⟩
  | case10 links here part rest children hdir hidle hup hwrite hsize node hnotLink hnode ih =>
    refine ih hfollow ?_
    cases node with
    | file old =>
      refine .inr (takes_of_get? hdir fun node' hnode' => ⟨old, ?_⟩)
      exact (Option.some.inj (hnode.symm.trans hnode')).symm
    | dir below => exact .inl ⟨below, hnode⟩
    | link target => exact absurd rfl (hnotLink target)
  | case4 | case5 | case7 | case8 | case11 => cases hfollow

/-- Parts are followed from a directory only. -/
theorem exists_dir_of_follow {purpose : Purpose} {links : Nat} {here goal : Path} {part : String}
    {rest : List String} {found : Option HostNode}
    (hfollow : tree.follow purpose links here (part :: rest) = .ok (goal, found)) :
    ∃ children, tree.get? here = some (.dir children) := by
  rw [follow] at hfollow
  split at hfollow
  · next children hdir => exact ⟨children, hdir⟩
  · cases hfollow

/-! ### Writing and reading -/

theorem locate_ok {purpose : Purpose} {found : Path × Option HostNode}
    (h : tree.locate purpose text = .ok found) :
    accept text = .ok () ∧
      tree.follow purpose maxLinks (origin tree.start text) (Path.parts text) = .ok found := by
  rw [locate] at h
  cases haccept : accept text with
  | error e =>
    rw [haccept] at h
    cases h
  | ok _ =>
    rw [haccept] at h
    exact ⟨rfl, h⟩

theorem parts_ne_nil (text : String) : Path.parts text ≠ [] := by
  rw [Path.parts, ne_eq, List.map_eq_nil_iff]
  exact Text.fields_ne_nil _ _

/-- A path leads where it led before a file was put. -/
theorem locate_of_putFile (h : tree.PutFile place content tree') {purpose : Purpose} {goal : Path}
    {found : Option HostNode} (hlocate : tree.locate purpose text = .ok (goal, found)) :
    tree'.locate .find text = .ok (goal, tree'.get? goal) := by
  obtain ⟨haccept, hfollow⟩ := locate_ok hlocate
  rw [locate, haccept, h.start]
  exact follow_of_putFile h hfollow

/-- What is written is put at the place that the path leads to. -/
theorem putFile_of_write {u : Unit} (h : write text content tree = .ok u tree') :
    ∃ place found, tree.locate .write text = .ok (place, found) ∧
      tree.PutFile place content tree' := by
  rw [write, putAt] at h
  cases hplace : filePlace text tree with
  | error e => simp [hplace] at h
  | ok place =>
    rw [hplace] at h
    obtain ⟨-, rfl⟩ := EStateM.Result.ok.inj h
    rw [filePlace] at hplace
    cases hlocate : tree.locate .write text with
    | error e =>
      rw [hlocate] at hplace
      cases hplace
    | ok found =>
      obtain ⟨goal, found⟩ := found
      rw [hlocate] at hplace
      have hgoal : goal = place ∧ ∀ children, found ≠ some (.dir children) := by
        cases found with
        | none => exact ⟨Except.ok.inj hplace, fun _ hdir => nomatch hdir⟩
        | some node =>
          cases node with
          | file | link => exact ⟨Except.ok.inj hplace, fun _ hdir => nomatch hdir⟩
          | dir => cases hplace
      obtain ⟨rfl, hfound⟩ := hgoal
      obtain ⟨-, hfollow⟩ := locate_ok hlocate
      have hhere : ∃ children, tree.get? (origin tree.start text) = some (.dir children) := by
        obtain ⟨part, rest, hparts⟩ := List.exists_cons_of_ne_nil (parts_ne_nil text)
        rw [hparts] at hfollow
        exact exists_dir_of_follow hfollow
      exact ⟨goal, found, rfl, putFile_put (takes_of_follow hfollow (.inl hhere) hfound) content⟩

theorem find_of_locate {place : Path} {node : HostNode}
    (h : tree.locate .find text = .ok (place, some node)) : tree.find text = .ok (place, node) := by
  rw [find, h]
  rfl

theorem locate_of_find {place : Path} {node : HostNode} (h : tree.find text = .ok (place, node)) :
    tree.locate .find text = .ok (place, some node) := by
  rw [find] at h
  cases hlocate : tree.locate .find text with
  | error e =>
    rw [hlocate] at h
    cases h
  | ok found =>
    obtain ⟨goal, found⟩ := found
    rw [hlocate] at h
    cases found with
    | none => cases h
    | some node' =>
      obtain ⟨rfl, rfl⟩ := Prod.mk.inj (Except.ok.inj h)
      rfl

theorem get?_of_find {place : Path} {node : HostNode} (h : tree.find text = .ok (place, node)) :
    tree.get? place = some node :=
  (found_of_follow (locate_ok (locate_of_find h)).2).symm

/-- A file that was written is found. -/
theorem find_of_write {u : Unit} (h : write text content tree = .ok u tree') :
    ∃ place, tree.PutFile place content tree' ∧ tree'.find text = .ok (place, .file content) := by
  obtain ⟨place, found, hlocate, hput⟩ := putFile_of_write h
  have hagain := locate_of_putFile hput hlocate
  rw [get?_of_view_file hput.here] at hagain
  exact ⟨place, hput, find_of_locate hagain⟩

/-- A file is found as before, unless it is the one that was written. -/
theorem find_of_putFile (h : tree.PutFile place content tree') {goal : Path} {old : Bytes}
    (hfind : tree.find text = .ok (goal, .file old)) :
    tree'.find text = .ok (goal, .file (if goal = place then content else old)) := by
  refine find_of_locate ?_
  rw [locate_of_putFile h (locate_of_find hfind)]
  by_cases hgoal : goal = place
  · rw [if_pos hgoal, hgoal, get?_of_view_file h.here]
  · rw [if_neg hgoal,
      get?_of_view_file ((h.beside goal hgoal).trans (view_of_get? (get?_of_find hfind)))]

theorem read_of_find {goal : Path} (h : tree.find text = .ok (goal, .file content)) :
    tree.read text = .ok content := by
  rw [read, h]
  rfl

/-! ### Paths of one name -/

/-- A path that is one name, which is looked up in the directory that the host starts from. -/
structure OneName (text : String) : Prop where
  parts : Path.parts text = [text]
  notIdle : HostPath.isIdle text = false
  notUp : text ≠ ".."
  relative : Path.isAbsolute text = false
  short : text.utf8ByteSize ≤ maxNameSize

namespace OneName

variable {children : List (String × HostNode)}

theorem locate_eq (h : OneName text) (hstart : tree.get? tree.start = some (.dir children))
    (purpose : Purpose) (hlink : ∀ target, tree.get? (tree.start ++ [text]) ≠ some (.link target)) :
    tree.locate purpose text =
      .ok (tree.start ++ [text], tree.get? (tree.start ++ [text])) := by
  have hne : text ≠ "" := by
    rintro rfl
    exact absurd h.notIdle (by decide)
  have hsize : ¬maxPathSize < text.utf8ByteSize := Nat.not_lt.2 (Nat.le_trans h.short (by decide))
  have hidle : ¬HostPath.isIdle text = true := Bool.eq_false_iff.1 h.notIdle
  have haccept : accept text = .ok () := by rw [accept, if_neg hne, if_neg hsize]
  rw [locate, haccept, h.parts, origin, h.relative]
  change tree.follow purpose maxLinks tree.start [text] = _
  rw [follow, hstart]
  dsimp only
  rw [if_neg hidle, if_neg h.notUp, if_neg (fun hwrite => hwrite.2.1 rfl),
    if_neg (Nat.not_lt.2 h.short)]
  cases hnode : tree.get? (tree.start ++ [text]) with
  | none => rfl
  | some node =>
    cases node with
    | link target => exact absurd hnode (hlink target)
    | file content | dir below =>
      dsimp only
      rw [follow, hnode]

/-- A new file is put into the directory that the host starts from. -/
theorem write_eq (h : OneName text) (hstart : tree.get? tree.start = some (.dir children))
    (hfree : tree.get? (tree.start ++ [text]) = none) (content : Bytes) :
    write text content tree = .ok () (tree.put (.file content) (tree.start ++ [text])) := by
  have hlocate := h.locate_eq hstart .write fun target hlink => nomatch hfree.symm.trans hlink
  rw [hfree] at hlocate
  rw [write, putAt, filePlace, hlocate]
  rfl

theorem place_of_find (h : OneName text) (hstart : tree.get? tree.start = some (.dir children))
    (hfile : tree.get? (tree.start ++ [text]) = some (.file content)) {node : HostNode}
    (hfind : tree.find text = .ok (place, node)) : place = tree.start ++ [text] := by
  have hlocate := h.locate_eq hstart .find fun target hlink => nomatch hfile.symm.trans hlink
  exact (Prod.mk.inj (Except.ok.inj ((locate_of_find hfind).symm.trans hlocate))).1

/-- No directories need to be made for it. -/
theorem parents_eq (h : OneName text) : HostPath.parents text = [] := by
  have hidle : ¬HostPath.isIdle text = true := Bool.eq_false_iff.1 h.notIdle
  rw [HostPath.parents, h.parts, List.reverse_singleton, HostPath.above, if_neg hidle]
  rfl

end OneName

end HostTree

end StagedSandbox
