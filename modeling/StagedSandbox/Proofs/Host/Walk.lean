import StagedSandbox.Host.Walk
import StagedSandbox.Proofs.Host.Tree
import StagedSandbox.Proofs.Path

/-!
# Walks

A walk of directories and files that can all be read yields each of them once, and each directory
before what it holds (`HostTree.Readable.walk`). A walk is given a depth to stay within; it is never
too small, since what lies in a node is smaller than the node.
-/

namespace StagedSandbox

namespace HostTree

variable {tree : HostTree} {text : String} {place : Path} {node : HostNode}
  {children : List (String × HostNode)}

/-! ### Sizes -/

theorem size_le_of_mem {child : String × HostNode} (h : child ∈ children) :
    size child.2 ≤ sizeAll children := by
  induction children with
  | nil => cases h
  | cons first rest ih =>
    rw [sizeAll]
    rcases List.mem_cons.1 h with rfl | hmem
    · exact Nat.le_add_right _ _
    · exact Nat.le_trans (ih hmem) (Nat.le_add_left _ _)

theorem size_le_of_get? {here : HostDir} (h : here.get? place = some node) :
    size node ≤ sizeAll here + 1 := by
  induction place generalizing here with
  | nil =>
    obtain ⟨rfl⟩ := h
    exact Nat.le_of_eq (size.eq_def _)
  | cons name rest ih =>
    rw [HostDir.get?] at h
    cases hname : Table.get? here name with
    | none => simp [hname] at h
    | some child =>
      have hchild : size child ≤ sizeAll here := size_le_of_mem (Table.mem_of_get? hname)
      rw [hname] at h
      cases child with
      | dir children =>
        have hnode := ih h
        rw [size] at hchild
        omega
      | file | link =>
        dsimp only at h
        split at h
        · obtain rfl := Option.some.inj h
          omega
        · cases h

/-! ### What lies below a place -/

theorem view_eq_dir_of_append {rest : Path} (hrest : rest ≠ [])
    (h : tree.view (place ++ rest) ≠ none) : tree.view place = some .dir := by
  obtain ⟨below, hbelow⟩ := HostDir.exists_dir_of_get?_ne_none hrest
    fun hnone => h (congrArg (Option.map HostNode.surface) hnone)
  exact view_of_get? hbelow

theorem rest_eq_nil_of_file {content : Bytes} (h : tree.get? place = some (.file content))
    {rest : Path} (hview : tree.view (place ++ rest) ≠ none) : rest = [] := by
  by_contra hrest
  have hdir := view_eq_dir_of_append hrest hview
  rw [view_of_get? h] at hdir
  cases hdir

theorem view_child (h : tree.get? place = some (.dir children)) (name : String) (rest : Path) :
    tree.view (place ++ name :: rest) = HostDir.view children (name :: rest) :=
  congrArg (Option.map HostNode.surface) (HostDir.get?_append_of_dir h (name :: rest))

theorem exists_mem_of_view_ne_none (h : tree.get? place = some (.dir children)) {name : String}
    {rest : Path} (hview : tree.view (place ++ name :: rest) ≠ none) :
    ∃ child, (name, child) ∈ children := by
  rw [view_child h, HostDir.view, HostDir.get?] at hview
  cases hname : Table.get? children name with
  | none => simp [hname] at hview
  | some child => exact ⟨child, Table.mem_of_get? hname⟩

/-! ### Readable trees -/

/-- What stands where a walk yields a directory or a file. -/
def yielded : Option Bytes → HostSurface
  | none => .dir
  | some content => .file content

/-- All directories and files at a place and below are listed, by their paths from there: each of
them once, and each directory before what it holds. -/
structure Lists (tree : HostTree) (place : Path) (order : List (Path × Option Bytes)) : Prop where
  mem : ∀ rest found, (rest, found) ∈ order ↔ tree.view (place ++ rest) = some (yielded found)
  before : order.Pairwise fun earlier later => ¬later.1 <+: earlier.1

/-- Also a permutation lists a directory, if it yields no directory after what it holds. -/
theorem Lists.perm {order order' : List (Path × Option Bytes)} (h : tree.Lists place order)
    (hperm : order.Perm order')
    (hbefore : order'.Pairwise fun earlier later => ¬later.1 <+: earlier.1) :
    tree.Lists place order' where
  mem rest found := by rw [← hperm.mem_iff, h.mem]
  before := hbefore

/-- A directory or a file that can be read with all that it holds, in which there are no links. The
text is the path by which a walk comes to it. -/
inductive Readable : String → HostNode → Prop
  | file {text : String} {content : Bytes} (accepted : accept text = .ok ()) :
      Readable text (.file content)
  | dir {text : String} {children : List (String × HostNode)} (accepted : accept text = .ok ())
      (names : ∀ child ∈ children, Path.IsName child.1) (distinct : (Table.keys children).Nodup)
      (below : ∀ child ∈ children, Readable (HostPath.join text child.1) child.2) :
      Readable text (.dir children)

theorem get?_child (h : tree.get? place = some (.dir children))
    (hdistinct : (Table.keys children).Nodup) {child : String × HostNode}
    (hchild : child ∈ children) : tree.get? (place ++ [child.1]) = some child.2 :=
  (HostDir.get?_concat h child.1).trans (Table.get?_of_mem_of_nodup hdistinct hchild)

theorem Readable.named (h : Readable text node) (hget : tree.get? place = some node) {rest : Path}
    (hview : tree.view (place ++ rest) ≠ none) : rest.Named := by
  induction h generalizing place rest with
  | file accepted =>
    rw [rest_eq_nil_of_file hget hview]
    exact Path.Named.nil
  | dir accepted names distinct below ih =>
    cases rest with
    | nil => exact Path.Named.nil
    | cons name more =>
      obtain ⟨child, hchild⟩ := exists_mem_of_view_ne_none hget hview
      refine Path.named_cons.2 ⟨names _ hchild, ih _ hchild (get?_child hget distinct hchild) ?_⟩
      rwa [List.append_assoc]

/-! ### Putting lists together -/

/-- What a walk of a child yields, seen from a directory above. -/
def beneath (path : Path) (entry : Path × Option Bytes) : Path × Option Bytes :=
  (path ++ entry.1, entry.2)

/-- The same for what lies below a place by one of some names. -/
structure ListsBelow (tree : HostTree) (place : Path) (names : List String)
    (order : List (Path × Option Bytes)) : Prop where
  mem : ∀ rest found, (rest, found) ∈ order ↔
    (∃ name ∈ names, [name] <+: rest) ∧ tree.view (place ++ rest) = some (yielded found)
  before : order.Pairwise fun earlier later => ¬later.1 <+: earlier.1

theorem mem_map_beneath {order : List (Path × Option Bytes)} {path rest : Path}
    {found : Option Bytes} :
    (rest, found) ∈ order.map (beneath path) ↔
      ∃ more, rest = path ++ more ∧ (more, found) ∈ order := by
  rw [List.mem_map]
  constructor
  · rintro ⟨⟨more, found'⟩, hmem, heq⟩
    obtain ⟨rfl, rfl⟩ := Prod.mk.inj heq
    exact ⟨more, rfl, hmem⟩
  · rintro ⟨more, rfl, hmem⟩
    exact ⟨(more, found), hmem, rfl⟩

theorem map_beneath_append (order : List (Path × Option Bytes)) (path rest : Path) :
    order.map (beneath (path ++ rest)) = (order.map (beneath rest)).map (beneath path) := by
  rw [List.map_map]
  refine List.map_congr_left fun entry _ => ?_
  exact Prod.ext (List.append_assoc ..) rfl

theorem Lists.file {content : Bytes} (h : tree.get? place = some (.file content)) :
    tree.Lists place [([], some content)] where
  mem rest found := by
    rw [List.mem_singleton]
    constructor
    · intro heq
      obtain ⟨rfl, rfl⟩ := Prod.mk.inj heq
      rw [List.append_nil]
      exact view_of_get? h
    · intro hview
      have hrest : rest = [] := rest_eq_nil_of_file h (by simp [hview])
      subst hrest
      rw [List.append_nil, view_of_get? h] at hview
      cases found with
      | none => cases hview
      | some content' =>
        obtain rfl : content = content' := by simpa [yielded, HostNode.surface] using hview
        rfl
  before := List.pairwise_singleton ..

theorem Lists.dir (h : tree.get? place = some (.dir children)) {below : List (Path × Option Bytes)}
    (hbelow : tree.ListsBelow place (Table.keys children) below) :
    tree.Lists place (([], none) :: below) where
  mem rest found := by
    rw [List.mem_cons, hbelow.mem]
    cases rest with
    | nil =>
      rw [List.append_nil, view_of_get? h]
      cases found <;> simp [yielded, HostNode.surface]
    | cons name more =>
      simp only [Prod.mk.injEq, reduceCtorEq, false_and, false_or, and_iff_right_iff_imp]
      intro hview
      have hsome : tree.view (place ++ name :: more) ≠ none := by simp [hview]
      obtain ⟨child, hchild⟩ := exists_mem_of_view_ne_none h hsome
      exact ⟨name, List.mem_map_of_mem hchild, more, rfl⟩
  before := by
    refine List.pairwise_cons.2 ⟨fun later hlater hprefix => ?_, hbelow.before⟩
    obtain ⟨name, -, hname⟩ := ((hbelow.mem later.1 later.2).1 hlater).1
    exact absurd (hname.trans hprefix) (by simp)

theorem ListsBelow.nil (tree : HostTree) (place : Path) : tree.ListsBelow place [] [] where
  mem := by simp
  before := List.Pairwise.nil

theorem ListsBelow.cons {name : String} {names : List String}
    {order rest : List (Path × Option Bytes)} (h : tree.Lists (place ++ [name]) order)
    (hrest : tree.ListsBelow place names rest) (hname : name ∉ names) :
    tree.ListsBelow place (name :: names) (order.map (beneath [name]) ++ rest) where
  mem path found := by
    rw [List.mem_append, mem_map_beneath, hrest.mem]
    constructor
    · rintro (⟨more, rfl, hmem⟩ | ⟨⟨name', hname', hunder⟩, hview⟩)
      · refine ⟨⟨name, List.mem_cons_self .., more, rfl⟩, ?_⟩
        rw [← List.append_assoc]
        exact (h.mem more found).1 hmem
      · exact ⟨⟨name', List.mem_cons_of_mem _ hname', hunder⟩, hview⟩
    · rintro ⟨⟨name', hname', hunder⟩, hview⟩
      rcases List.mem_cons.1 hname' with rfl | hname'
      · obtain ⟨more, rfl⟩ := hunder
        rw [← List.append_assoc] at hview
        exact .inl ⟨more, rfl, (h.mem more found).2 hview⟩
      · exact .inr ⟨⟨name', hname', hunder⟩, hview⟩
  before := by
    have hfirst : (order.map (beneath [name])).Pairwise fun earlier later =>
        ¬later.1 <+: earlier.1 :=
      List.pairwise_map.2 (h.before.imp fun hnot hprefix =>
        hnot ((List.prefix_append_right_inj [name]).1 hprefix))
    refine List.pairwise_append.2 ⟨hfirst, hrest.before, ?_⟩
    intro earlier hearlier later hlater hprefix
    -- entries below different names do not lie below each other
    obtain ⟨more, hmore, -⟩ := mem_map_beneath.1 hearlier
    obtain ⟨⟨name', hname', hunder⟩, -⟩ := (hrest.mem later.1 later.2).1 hlater
    have hboth := hunder.trans hprefix
    rw [hmore] at hboth
    obtain rfl : name' = name := by simpa using hboth
    exact hname hname'

/-! ### The walk -/

section

variable {depth : Nat} {trail : Trail} {relative : Path}

theorem walkNode_file {content : Bytes} (haccept : accept text = .ok ()) :
    tree.walkNode trail text relative place (.file content) depth =
      .ok [(relative, some content)] := by
  rw [walkNode]
  cases depth <;> simp [settle, haccept, bind, Except.bind, Except.mapError, pure, Except.pure]

theorem walkNode_dir (haccept : accept text = .ok ()) {below : List (Path × Option Bytes)}
    (hbelow : tree.walkChildren ((place, text) :: trail) text relative place children depth =
      .ok below) :
    tree.walkNode trail text relative place (.dir children) (depth + 1) =
      .ok ((relative, none) :: below) := by
  rw [walkNode]
  simp [settle, haccept, hbelow, bind, Except.bind, Except.mapError, pure, Except.pure]

theorem walkChildren_cons {name : String} {rest : List (String × HostNode)} {first more}
    (hfirst : tree.walkNode trail (HostPath.join text name) (relative ++ [name]) (place ++ [name])
      node depth = .ok first)
    (hrest : tree.walkChildren trail text relative place rest depth = .ok more) :
    tree.walkChildren trail text relative place ((name, node) :: rest) depth =
      .ok (first ++ more) := by
  rw [walkChildren, hfirst]
  simp [hrest, bind, Except.bind, pure, Except.pure]

/-- Children that are walked one by one are listed together. -/
theorem listsBelow_walkChildren (trail : Trail) (text : String) (relative : Path)
    (hdistinct : (Table.keys children).Nodup)
    (hchild : ∀ child ∈ children, ∃ order,
      tree.walkNode trail (HostPath.join text child.1) (relative ++ [child.1]) (place ++ [child.1])
        child.2 depth = .ok (order.map (beneath (relative ++ [child.1]))) ∧
      tree.Lists (place ++ [child.1]) order) :
    ∃ order, tree.walkChildren trail text relative place children depth =
        .ok (order.map (beneath relative)) ∧
      tree.ListsBelow place (Table.keys children) order := by
  induction children with
  | nil =>
    refine ⟨[], ?_, .nil tree place⟩
    rw [walkChildren]
    rfl
  | cons child rest ih =>
    obtain ⟨hname, hdistinct⟩ := List.nodup_cons.1 hdistinct
    obtain ⟨order, hwalk, hlists⟩ := hchild child (List.mem_cons_self ..)
    obtain ⟨more, hmore, hbelow⟩ := ih hdistinct fun other hother =>
      hchild other (List.mem_cons_of_mem _ hother)
    refine ⟨order.map (beneath [child.1]) ++ more, ?_, .cons hlists hbelow hname⟩
    rw [walkChildren_cons hwalk hmore, map_beneath_append, List.map_append]

/-- A walk comes to all that can be read. -/
theorem Readable.walkNode (h : Readable text node) (hget : tree.get? place = some node)
    (hdepth : size node ≤ depth) (trail : Trail) (relative : Path) :
    ∃ order, tree.walkNode trail text relative place node depth =
      .ok (order.map (beneath relative)) ∧ tree.Lists place order := by
  induction h generalizing place depth trail relative with
  | @file text content accepted =>
    refine ⟨[([], some content)], ?_, .file hget⟩
    rw [walkNode_file accepted, List.map_singleton, beneath, List.append_nil]
  | @dir text children accepted names distinct below ih =>
    rw [size] at hdepth
    obtain ⟨depth, rfl⟩ : ∃ n, depth = n + 1 := ⟨depth - 1, by omega⟩
    obtain ⟨order, hwalk, hbelow⟩ := listsBelow_walkChildren ((place, text) :: trail) text relative
      distinct fun child hchild => ih child hchild (get?_child hget distinct hchild)
        (Nat.le_trans (size_le_of_mem hchild) (Nat.le_of_succ_le_succ hdepth)) _ _
    refine ⟨([], none) :: order, ?_, .dir hget hbelow⟩
    rw [walkNode_dir accepted hwalk, List.map_cons, beneath, List.append_nil]

end

/-- A walk yields all directories and files, each of them once, and each directory before what it
holds. -/
theorem Readable.walk (h : Readable text node) (hfind : tree.find text = .ok (place, node)) :
    ∃ order, tree.walk text = .ok order ∧ tree.Lists place order := by
  have hget : tree.get? place = some node := get?_of_find hfind
  have hsize : size node ≤ (sizeAll tree.root + 1) * (sizeAll tree.root + 1) :=
    Nat.le_trans (size_le_of_get? hget) (Nat.le_mul_self _)
  obtain ⟨order, hwalk, hlists⟩ := h.walkNode hget hsize [] []
  refine ⟨order, ?_, hlists⟩
  rw [HostTree.walk, hfind]
  dsimp only
  rw [hwalk]
  exact congrArg Except.ok (List.map_id order)

end HostTree

end StagedSandbox
