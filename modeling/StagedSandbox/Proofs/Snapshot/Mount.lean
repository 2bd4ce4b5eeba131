import StagedSandbox.Proofs.Action
import StagedSandbox.Proofs.Host.Walk
import StagedSandbox.Proofs.Snapshot.Builder
import StagedSandbox.Snapshot.Mount

/-!
# Packed mounts

The order in which a walk yields the files of a mount does not matter
(`Snapshot.addMount_of_orders`). An entry that is added decides what stands on the way to it, and
below it if it is a file; what it puts there is what the host's files look like when they are shown
beneath the mount's path (`shown`), whatever else is added. So what a mount leaves is told by the
entries alone: where one of them decides, what is shown, and elsewhere what was there before.
-/

namespace StagedSandbox

open StagedSandbox.Action HostTree

/-! ### What the entries of a walk decide -/

/-- What stands in a file system for what stands in the host's files. -/
def HostSurface.packed : HostSurface → Option Surface
  | .file content => some (.file content)
  | .dir => some .dir
  | .link _ => none

/-- What the host's files at a place and below look like when they are shown beneath a path: there
are directories on the way to them. -/
def shown (tree : HostTree) (place base path : Path) : Option Surface :=
  if base <+: path then (tree.view (place ++ path.drop base.length)).bind HostSurface.packed
  else some .dir

/-- An entry that is added beneath a path decides what stands at another one: on the way to the
entry, or below it if it is a file. -/
def Decides (base : Path) (entry : Path × Option Bytes) (path : Path) : Prop :=
  path <+: base ++ entry.1 ∨ entry.2 ≠ none ∧ base ++ entry.1 <+: path

/-- What is added for an entry of a walk. -/
def Addition.ofWalk (base : Path) (entry : Path × Option Bytes) : Addition :=
  match entry.2 with
  | none => .dir (base ++ entry.1).render
  | some content => .file (base ++ entry.1).render content

section

variable {tree : HostTree} {place base path rest : Path} {content : Bytes}

theorem shown_append (tree : HostTree) (place base rest : Path) :
    shown tree place base (base ++ rest) = (tree.view (place ++ rest)).bind HostSurface.packed := by
  rw [shown, if_pos (List.prefix_append base rest), List.drop_left]

theorem shown_of_view {found : Option Bytes}
    (h : tree.view (place ++ rest) = some (yielded found)) :
    shown tree place base (base ++ rest) = (yielded found).packed := by
  rw [shown_append, h]
  rfl

/-- There are directories on the way to all that is shown. -/
theorem shown_above (h : tree.view (place ++ rest) ≠ none) (hunder : path <+: base ++ rest)
    (hne : path ≠ base ++ rest) : shown tree place base path = some .dir := by
  by_cases hbase : base <+: path
  · obtain ⟨above, rfl⟩ := hbase
    obtain ⟨more, rfl⟩ := (List.prefix_append_right_inj base).1 hunder
    have hmore : more ≠ [] := by
      rintro rfl
      simp at hne
    rw [← List.append_assoc] at h
    rw [shown_append, HostTree.view_eq_dir_of_append hmore h]
    rfl
  · exact if_neg hbase

/-- Nothing is shown below a file. -/
theorem shown_below (h : tree.view (place ++ rest) = some (.file content))
    (hunder : base ++ rest <+: path) (hne : path ≠ base ++ rest) :
    shown tree place base path = none := by
  obtain ⟨more, rfl⟩ := hunder
  have hview : tree.view (place ++ (rest ++ more)) = none := by
    by_contra hsome
    rw [← List.append_assoc] at hsome
    obtain rfl := HostTree.rest_eq_nil_of_file (HostTree.get?_of_view_file h) hsome
    simp at hne
  rw [List.append_assoc, shown_append, hview]
  rfl

end

namespace Snapshot

variable {s : Snapshot} {fs fs' : Fs} {tree : HostTree} {place base path : Path}
  {entry : Path × Option Bytes} {order order' : List (Path × Option Bytes)}

/-! ### One entry -/

theorem addWalked_eq (base : Path) (s : Snapshot) (entry : Path × Option Bytes) :
    addWalked base s entry = (Addition.ofWalk base entry).add s := by
  rw [addWalked, Addition.ofWalk]
  cases entry.2 <;> rfl

/-- An entry that lies at a place of the host, and that can be added beneath a path. -/
structure Fits (tree : HostTree) (place base : Path) (entry : Path × Option Bytes) : Prop where
  view : tree.view (place ++ entry.1) = some (yielded entry.2)
  named : (base ++ entry.1).Named
  below : entry.2 ≠ none → base ++ entry.1 ≠ []

theorem Fits.exists_add (h : Fits tree place base entry) (s : Snapshot) :
    ∃ s', addWalked base s entry = .ok s' := by
  obtain ⟨rest, found⟩ := entry
  have hpath : entryPath (base ++ rest).render = .ok (base ++ rest) := by
    rw [entryPath, Path.parse?_render h.named]
  cases found with
  | none =>
    simp only [addWalked, addDir, hpath, bind, Except.bind]
    split
    · exact ⟨_, rfl⟩
    · exact ⟨_, rfl⟩
  | some content =>
    simp only [addWalked, addFile, hpath, bind, Except.bind]
    rw [if_neg (h.below (by simp))]
    exact ⟨_, rfl⟩

theorem force_ofWalk_none {rest : Path} (h : (base ++ rest).Named) (fs : Fs) :
    (Addition.ofWalk base (rest, none)).force fs = fs.forceDir (base ++ rest) := by
  simp only [Addition.ofWalk, Addition.force, Path.parse?_render h, Option.getD_some]

theorem force_ofWalk_some {rest : Path} (h : (base ++ rest).Named) (content : Bytes) (fs : Fs) :
    (Addition.ofWalk base (rest, some content)).force fs =
      fs.forceFile content (base ++ rest) := by
  simp only [Addition.ofWalk, Addition.force, Path.parse?_render h, Option.getD_some]

/-- Where an entry decides, it puts what is shown. -/
theorem Fits.view_of_decides (h : Fits tree place base entry) (fs : Fs)
    (hdecides : Decides base entry path) :
    ((Addition.ofWalk base entry).force fs).view path = shown tree place base path := by
  obtain ⟨rest, found⟩ := entry
  have hsome : tree.view (place ++ rest) ≠ none := by simp [h.view]
  cases found with
  | none =>
    have hunder : path <+: base ++ rest := hdecides.resolve_right fun hfile => hfile.1 rfl
    rw [force_ofWalk_none h.named, (Fs.extended_forceDir fs _).view, if_pos hunder]
    by_cases heq : path = base ++ rest
    · rw [heq, shown_of_view h.view]
      rfl
    · rw [shown_above hsome hunder heq]
  | some content =>
    rw [force_ofWalk_some h.named, Fs.view_forceFile fs content (h.below (by simp))]
    by_cases heq : path = base ++ rest
    · rw [if_pos heq, heq, shown_of_view h.view]
      rfl
    · rw [if_neg heq]
      by_cases hunder : path <+: base ++ rest
      · rw [if_pos hunder, shown_above hsome hunder heq]
      · have hover := (hdecides.resolve_left hunder).2
        rw [if_neg hunder, if_pos hover, shown_below h.view hover heq]

/-- Elsewhere it changes nothing. -/
theorem Fits.view_of_not_decides (h : Fits tree place base entry) (fs : Fs)
    (hdecides : ¬Decides base entry path) :
    ((Addition.ofWalk base entry).force fs).view path = fs.view path := by
  obtain ⟨rest, found⟩ := entry
  obtain ⟨hunder, hover⟩ := not_or.1 hdecides
  cases found with
  | none =>
    rw [force_ofWalk_none h.named, (Fs.extended_forceDir fs _).view, if_neg hunder]
  | some content =>
    have hne : path ≠ base ++ rest := fun heq => hunder (heq ▸ List.prefix_refl _)
    rw [force_ofWalk_some h.named, Fs.view_forceFile fs content (h.below (by simp)), if_neg hne,
      if_neg hunder, if_neg fun hbelow => hover ⟨by simp, hbelow⟩]

/-! ### All entries -/

/-- What some entries leave of a file system: where one of them decides, what is shown, and
elsewhere what was there. -/
structure Overlaid (tree : HostTree) (place base : Path) (fs : Fs)
    (order : List (Path × Option Bytes)) (fs' : Fs) : Prop where
  decided : ∀ entry ∈ order, ∀ path, Decides base entry path →
    fs'.view path = shown tree place base path
  beside : ∀ path, (∀ entry ∈ order, ¬Decides base entry path) → fs'.view path = fs.view path

theorem Overlaid.nil (tree : HostTree) (place base : Path) (fs : Fs) :
    Overlaid tree place base fs [] fs where
  decided := by simp
  beside _ _ := rfl

theorem Overlaid.concat (h : Overlaid tree place base fs order fs')
    (hentry : Fits tree place base entry) :
    Overlaid tree place base fs (order ++ [entry]) ((Addition.ofWalk base entry).force fs') where
  decided other hother path hdecides := by
    by_cases hlast : Decides base entry path
    · exact hentry.view_of_decides fs' hlast
    · rw [hentry.view_of_not_decides fs' hlast]
      rcases List.mem_append.1 hother with hmem | hmem
      · exact h.decided other hmem path hdecides
      · exact absurd (List.mem_singleton.1 hmem ▸ hdecides) hlast
  beside path hpath := by
    rw [hentry.view_of_not_decides fs' (hpath entry (by simp))]
    exact h.beside path fun other hother => hpath other (List.mem_append_left _ hother)

/-- The same entries leave the same, in whatever order. -/
theorem Overlaid.eq {left right : Fs} (h : Overlaid tree place base fs order left)
    (h' : Overlaid tree place base fs order' right) (hmem : ∀ entry, entry ∈ order ↔ entry ∈ order')
    (hleft : left.WellFormed) (hright : right.WellFormed) : left = right := by
  refine hleft.ext_view hright fun path => ?_
  by_cases hdecided : ∃ entry ∈ order, Decides base entry path
  · obtain ⟨entry, hentry, hpath⟩ := hdecided
    rw [h.decided entry hentry path hpath, h'.decided entry ((hmem entry).1 hentry) path hpath]
  · have hnone : ∀ entry ∈ order, ¬Decides base entry path := fun entry hentry hpath =>
      hdecided ⟨entry, hentry, hpath⟩
    rw [h.beside path hnone, h'.beside path fun entry hentry => hnone entry ((hmem entry).2 hentry)]

theorem Represents.overlaid (h : s.Represents fs)
    (horder : ∀ entry ∈ order, Fits tree place base entry) :
    ∃ s' fs', order.foldlM (addWalked base) s = .ok s' ∧ s'.Represents fs' ∧
      Overlaid tree place base fs order fs' := by
  obtain ⟨s', hrun, fs', hs', hfs'⟩ := foldlM_of_steps
    (fun done (s' : Snapshot) => ∃ fs', s'.Represents fs' ∧ Overlaid tree place base fs done fs')
    order
    (fun done entry between hentry ⟨fs', hbetween, hfs'⟩ => by
      obtain ⟨s', hadd⟩ := (horder entry hentry).exists_add between
      have hforce := hbetween.add ((addWalked_eq base between entry).symm.trans hadd)
      exact ⟨s', hadd, _, hforce, hfs'.concat (horder entry hentry)⟩) []
    ⟨fs, h, .nil tree place base fs⟩
  exact ⟨s', fs', hrun, hs', hfs'⟩

/-! ### Mounts -/

/-- The snapshots that additions and mounts lead to. A mount that stops half-way leaves what it has
added so far (`addWalked_eq`), so that additions lead there. -/
inductive Reached : Snapshot → Prop
  | empty : Reached {}
  | add {s s' : Snapshot} (addition : Addition) (h : Reached s) (hadd : addition.add s = .ok s') :
      Reached s'
  | addMount {s s' : Snapshot} (tree : HostTree) (mount : Mount) (h : Reached s)
      (hadd : s.addMount tree mount = .ok s') : Reached s'

/-- Add what a walk yields, in some order. -/
def addListed (s : Snapshot) (order : List (Path × Option Bytes)) (virtualPath : String) :
    Except Failure Snapshot := do
  let base ← (entryPath virtualPath).mapError Failure.configuration
  (order.foldlM (addWalked base) s).mapError Failure.configuration

variable {mount : Mount} {node : HostNode} {virtualPath : String} {s' : Snapshot}

theorem addMount_eq (s : Snapshot) (h : tree.walk mount.host = .ok order) :
    s.addMount tree mount = s.addListed order mount.virtualPath := by
  rw [addMount, h, addListed]
  rfl

theorem addListed_eq (s : Snapshot) (h : Path.parse? virtualPath = some base)
    (order : List (Path × Option Bytes)) :
    s.addListed order virtualPath =
      (order.foldlM (addWalked base) s).mapError Failure.configuration := by
  rw [addListed, entryPath, h]
  rfl

theorem addListed_of_none (s : Snapshot) (h : Path.parse? virtualPath = none)
    (order : List (Path × Option Bytes)) :
    s.addListed order virtualPath =
      .error (.configuration (.invalidPath virtualPath)) := by
  rw [addListed, entryPath, h]
  rfl

theorem exists_foldlM_of_addMount (h : s.addMount tree mount = .ok s') :
    ∃ (base : Path) (order : List (Path × Option Bytes)),
      order.foldlM (addWalked base) s = .ok s' := by
  obtain ⟨base, -, hrest⟩ := exists_of_bind_eq_ok h
  obtain ⟨order, -, hrun⟩ := exists_of_bind_eq_ok hrest
  exact ⟨base, order, mapError_eq_ok.1 hrun⟩

theorem Represents.exists_of_foldlM (h : s.Represents fs)
    (hrun : order.foldlM (addWalked base) s = .ok s') : ∃ fs', s'.Represents fs' := by
  induction order generalizing s fs with
  | nil => exact ⟨fs, Except.ok.inj hrun ▸ h⟩
  | cons entry rest ih =>
    rw [List.foldlM_cons] at hrun
    obtain ⟨between, hadd, hrest⟩ := exists_of_bind_eq_ok hrun
    rw [addWalked_eq] at hadd
    exact ih (h.add hadd) hrest

theorem Reached.build (h : s.Reached) (additions : List Addition) :
    (s.build additions).Reached := by
  induction additions generalizing s with
  | nil => exact h
  | cons addition rest ih =>
    rw [Snapshot.build]
    cases hadd : addition.add s with
    | ok s' => exact ih (.add addition h hadd)
    | error e => exact ih h

theorem Reached.exists_represents (h : s.Reached) : ∃ fs, s.Represents fs := by
  induction h with
  | empty => exact ⟨[], represents_empty⟩
  | add addition _ hadd ih =>
    obtain ⟨fs, hfs⟩ := ih
    exact ⟨_, hfs.add hadd⟩
  | addMount tree mount _ hadd ih =>
    obtain ⟨fs, hfs⟩ := ih
    obtain ⟨base, order, hrun⟩ := exists_foldlM_of_addMount hadd
    exact hfs.exists_of_foldlM hrun

theorem addWalked_file_root (s : Snapshot) (content : Bytes) :
    addWalked [] s ([], some content) = .error .fileAtRoot := by
  have hpath : entryPath (Path.render ([] ++ [])) = .ok [] := by
    rw [entryPath, List.append_nil, Path.parse?_render Path.Named.nil]
  simp only [addWalked, addFile, hpath, bind, Except.bind, if_true]
  rfl

/-- A file cannot be mounted at the root. -/
theorem addListed_of_file (s : Snapshot) (hroot : Path.parse? virtualPath = some [])
    {content : Bytes} (hfile : tree.get? place = some (.file content))
    (hlists : tree.Lists place order) :
    s.addListed order virtualPath = .error (.configuration .fileAtRoot) := by
  have hmem : ([], some content) ∈ order :=
    (hlists.mem [] (some content)).2 ((List.append_nil place).symm ▸ view_of_get? hfile)
  cases order with
  | nil => cases hmem
  | cons entry rest =>
    -- every entry is that of the file
    obtain ⟨path, found⟩ := entry
    have hview := (hlists.mem path found).1 (List.mem_cons_self ..)
    obtain rfl := rest_eq_nil_of_file hfile (by rw [hview]; simp)
    rw [List.append_nil, view_of_get? hfile] at hview
    cases found with
    | none => cases hview
    | some content' =>
      rw [addListed_eq s hroot, List.foldlM_cons, addWalked_file_root]
      rfl

theorem fits_of_lists (hnode : Readable text node) (hget : tree.get? place = some node)
    (hbase : base.Named) (hroot : ¬(base = [] ∧ ∃ content, node = .file content))
    (hlists : tree.Lists place order) : ∀ entry ∈ order, Fits tree place base entry := by
  intro ⟨rest, found⟩ hentry
  have hview := (hlists.mem rest found).1 hentry
  have hsome : tree.view (place ++ rest) ≠ none := by simp [hview]
  refine ⟨hview, Path.named_append.2 ⟨hbase, hnode.named hget hsome⟩, fun hfound hempty => hroot ?_⟩
  obtain ⟨content, rfl⟩ := Option.ne_none_iff_exists'.1 hfound
  obtain ⟨rfl, rfl⟩ := List.append_eq_nil_iff.1 hempty
  rw [List.append_nil] at hview
  exact ⟨rfl, content, Option.some.inj (hget.symm.trans (get?_of_view_file hview))⟩

/-- Everywhere else, all that is listed can be added. -/
theorem Represents.addListed (h : s.Represents fs) (hnode : Readable text node)
    (hget : tree.get? place = some node) (hbase : Path.parse? virtualPath = some base)
    (hroot : ¬(base = [] ∧ ∃ content, node = .file content)) (hlists : tree.Lists place order) :
    ∃ s' fs', s.addListed order virtualPath = .ok s' ∧ s'.Represents fs' ∧
      Overlaid tree place base fs order fs' := by
  obtain ⟨s', fs', hrun, hs', hfs'⟩ :=
    h.overlaid (fits_of_lists hnode hget (Path.named_of_parse? hbase) hroot hlists)
  refine ⟨s', fs', ?_, hs', hfs'⟩
  rw [addListed_eq s hbase, hrun]
  rfl

/-- Whatever was added before, a mount adds the same files in whatever order a walk yields them. It
is refused in each order for the same reason, or it leads in each order to a valid snapshot
that is unpacked to the same file system, in which all files of the host are found beneath the
mount's path. -/
theorem addMount_of_orders (hs : s.Reached) (hfind : tree.find mount.host = .ok (place, node))
    (hnode : Readable mount.host node) :
    (∃ order, tree.Lists place order ∧
      s.addMount tree mount = s.addListed order mount.virtualPath) ∧
    ∀ order order', tree.Lists place order → tree.Lists place order' →
      (∃ e, s.addListed order mount.virtualPath = .error e ∧
        s.addListed order' mount.virtualPath = .error e) ∨
      ∃ left right fs base,
        s.addListed order mount.virtualPath = .ok left ∧
        s.addListed order' mount.virtualPath = .ok right ∧
        left.validate = .ok () ∧ right.validate = .ok () ∧
        left.load = .ok fs ∧ right.load = .ok fs ∧
        Path.parse? mount.virtualPath = some base ∧
        ∀ rest content, tree.get? (place ++ rest) = some (.file content) →
          fs.read (base ++ rest) = .ok content := by
  have hget := get?_of_find hfind
  obtain ⟨walked, hwalk, hwalked⟩ := hnode.walk hfind
  refine ⟨⟨walked, hwalked, addMount_eq s hwalk⟩, fun order order' horder horder' => ?_⟩
  obtain ⟨fs, hfs⟩ := hs.exists_represents
  cases hparse : Path.parse? mount.virtualPath with
  | none => exact .inl ⟨_, addListed_of_none s hparse order, addListed_of_none s hparse order'⟩
  | some base =>
    by_cases hroot : base = [] ∧ ∃ content, node = .file content
    · obtain ⟨rfl, content, rfl⟩ := hroot
      exact .inl
        ⟨_, addListed_of_file s hparse hget horder, addListed_of_file s hparse hget horder'⟩
    · obtain ⟨left, leftFs, hleft, hleftFs, hover⟩ :=
        hfs.addListed hnode hget hparse hroot horder
      obtain ⟨right, rightFs, hright, hrightFs, hover'⟩ :=
        hfs.addListed hnode hget hparse hroot horder'
      obtain rfl := hover.eq hover'
        (fun entry => (horder.mem entry.1 entry.2).trans (horder'.mem entry.1 entry.2).symm)
        hleftFs.wellFormed hrightFs.wellFormed
      refine .inr ⟨left, right, leftFs, base, hleft, hright, hleftFs.validate, hrightFs.validate,
        hleftFs.load, hrightFs.load, rfl, fun rest content hfile => ?_⟩
      have hview : tree.view (place ++ rest) = some (yielded (some content)) := view_of_get? hfile
      have hdecided := hover.decided _ ((horder.mem rest (some content)).2 hview) (base ++ rest)
        (.inl (List.prefix_refl _))
      rw [shown_of_view hview] at hdecided
      exact Fs.read_of_lookup (Fs.view_eq_file_iff.1 hdecided)

/-- A directory of the host that is mounted where there is a directory in the place of one of its
files, and a file in the place of one of its directories. -/
def collidingTree : HostTree :=
  { root := [("src", .dir [("a", .file (Bytes.ofText "3")),
      ("b", .dir [("c", .file (Bytes.ofText "4"))])])] }

def collidingMount : Mount := ⟨"src", "/lib"⟩

/-- The order in which a walk yields it, and another one. -/
def collidingOrder : List (Path × Option Bytes) :=
  [([], none), (["a"], some (Bytes.ofText "3")), (["b"], none),
    (["b", "c"], some (Bytes.ofText "4"))]

def otherOrder : List (Path × Option Bytes) :=
  [([], none), (["b"], none), (["b", "c"], some (Bytes.ofText "4")),
    (["a"], some (Bytes.ofText "3"))]

theorem find_collidingTree :
    collidingTree.find "src" = .ok (["src"], .dir [("a", .file (Bytes.ofText "3")),
      ("b", .dir [("c", .file (Bytes.ofText "4"))])]) := by
  have hname : OneName "src" := ⟨by decide, by decide, by decide, by decide, by decide⟩
  have hroot : collidingTree.get? collidingTree.start = some (.dir collidingTree.root) := rfl
  have hsrc : collidingTree.get? ["src"] = some (.dir [("a", .file (Bytes.ofText "3")),
      ("b", .dir [("c", .file (Bytes.ofText "4"))])]) := rfl
  exact find_of_locate
    (hname.locate_eq hroot .find fun target hlink => nomatch hsrc.symm.trans hlink)

theorem readable_collidingTree :
    Readable "src" (.dir [("a", .file (Bytes.ofText "3")),
      ("b", .dir [("c", .file (Bytes.ofText "4"))])]) := by
  refine .dir (by decide) (by decide) (by decide) fun child hchild => ?_
  rcases List.mem_cons.1 hchild with rfl | hchild
  · exact .file (by decide)
  · obtain rfl := List.mem_singleton.1 hchild
    refine .dir (by decide) (by decide) (by decide) fun child hchild => ?_
    obtain rfl := List.mem_singleton.1 hchild
    exact .file (by decide)

theorem walk_collidingTree : collidingTree.walk "src" = .ok collidingOrder := by
  have haccept (text : String) (h : text ∈ ["src", HostPath.join "src" "a", HostPath.join "src" "b",
      HostPath.join (HostPath.join "src" "b") "c"]) : HostTree.accept text = .ok () := by
    revert text
    decide
  rw [HostTree.walk, find_collidingTree]
  simp [walkNode, walkChildren, settle, haccept, sizeAll, size, collidingTree, collidingOrder,
    Except.mapError, bind, Except.bind, pure, Except.pure]

theorem lists_collidingOrder : collidingTree.Lists ["src"] collidingOrder := by
  obtain ⟨walked, hwalk, hlists⟩ := readable_collidingTree.walk find_collidingTree
  rwa [← Except.ok.inj (walk_collidingTree.symm.trans hwalk)] at hlists

/-- A snapshot with a directory and a file in the way. -/
def collidingSnapshot : Snapshot :=
  build {} [.file "/lib/a/old" (Bytes.ofText "1"), .file "/lib/b" (Bytes.ofText "2")]

/-- Mounted in two orders, which leave different blobs, a directory shows the same files. -/
theorem addMount_of_orders_collision :
    ∃ left right fs,
      collidingSnapshot.addMount collidingTree collidingMount = .ok left ∧
      collidingSnapshot.addListed otherOrder "/lib" = .ok right ∧
      left.blob = Bytes.ofText "1234" ∧ right.blob = Bytes.ofText "1243" ∧
      left.load = .ok fs ∧ right.load = .ok fs ∧
      fs.read ["lib", "a"] = .ok (Bytes.ofText "3") ∧
      fs.read ["lib", "b", "c"] = .ok (Bytes.ofText "4") := by
  have hs : collidingSnapshot.Reached := Reached.empty.build _
  have hother : collidingTree.Lists ["src"] otherOrder :=
    lists_collidingOrder.perm (by decide) (by decide)
  have hbase : Path.parse? collidingMount.virtualPath = some ["lib"] := by decide
  have hblobs :
      (collidingSnapshot.addListed collidingOrder "/lib").toOption.map (·.blob) =
          some (Bytes.ofText "1234") ∧
        (collidingSnapshot.addListed otherOrder "/lib").toOption.map (·.blob) =
          some (Bytes.ofText "1243") := by
    decide +kernel
  have hfind : collidingTree.find collidingMount.host = _ := find_collidingTree
  obtain ⟨-, hall⟩ := addMount_of_orders hs hfind readable_collidingTree
  rcases hall collidingOrder otherOrder lists_collidingOrder hother with
    ⟨e, he, -⟩ | ⟨left, right, fs, base, hleft, hright, -, -, hload, hload', hparse, hread⟩
  · rw [show collidingSnapshot.addListed collidingOrder "/lib" = _ from he] at hblobs
    cases hblobs.1
  · obtain rfl := Option.some.inj (hbase.symm.trans hparse)
    rw [show collidingSnapshot.addListed collidingOrder "/lib" = _ from hleft,
      show collidingSnapshot.addListed otherOrder "/lib" = _ from hright] at hblobs
    exact ⟨left, right, fs, (addMount_eq _ walk_collidingTree).trans hleft, hright,
      Option.some.inj hblobs.1, Option.some.inj hblobs.2, hload, hload', hread ["a"] _ rfl,
      hread ["b", "c"] _ rfl⟩

end Snapshot

end StagedSandbox
