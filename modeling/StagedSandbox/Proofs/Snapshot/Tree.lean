import Mathlib.Data.List.Pairwise
import StagedSandbox.Proofs.Snapshot.Alias

/-!
# Indexes that make a tree

An index makes a tree if its files lie in the blob, none of them stands at the root, and none lies
above another entry (`Snapshot.TreeShaped`). If all keys are normalized, exactly these indexes can
be unpacked, and what they yield are the entries with the directories that they lie in
(`Snapshot.load_spec`).

Entries are unpacked one by one, all directories before all files. What is there after some of them
is described by `Snapshot.Holds`; the next one is accepted just if it makes a tree together with
those before it (`Snapshot.Holds.unpack`).
-/

namespace StagedSandbox

theorem Entry.surface_eq_file_iff {blob : Bytes} {stands : Entry} {content : Bytes} :
    stands.surface blob = .file content ↔
      ∃ offset length, stands = .file offset length ∧ content = blob.slice offset length := by
  cases stands with
  | dir => simp [Entry.surface]
  | file offset length =>
    simp only [Entry.surface, Surface.file.injEq, Entry.file.injEq]
    constructor
    · rintro rfl
      exact ⟨offset, length, ⟨rfl, rfl⟩, rfl⟩
    · rintro ⟨_, _, ⟨rfl, rfl⟩, rfl⟩
      rfl

namespace Snapshot

open Fs

/-! ### Entries by their paths -/

/-- An entry of an index, with its path in the place of the key. -/
abbrev Item := Path × Entry

/-- The entry in the index. -/
def Item.entry (item : Item) : String × Entry := (item.1.render, item.2)

/-- A directory, or a file below the root whose range lies in the blob. -/
def Item.Sound (blob : Bytes) (item : Item) : Prop :=
  ∀ offset length, item.2 = .file offset length → item.1 ≠ [] ∧ offset + length ≤ blob.size

/-- Of two entries, one that lies above the other is a directory. -/
def Item.Compatible (a b : Item) : Prop :=
  (a.1 <+: b.1 → a.2 = .dir) ∧ (b.1 <+: a.1 → b.2 = .dir)

instance : Std.Symm Item.Compatible := ⟨fun _ _ h => ⟨h.2, h.1⟩⟩

/-- All entries are sound, and no file lies above another entry. -/
structure Consistent (blob : Bytes) (items : List Item) : Prop where
  sound : ∀ item ∈ items, item.Sound blob
  compatible : items.Pairwise Item.Compatible

/-- A file system that consists of some entries and the directories they lie in. -/
structure Holds (blob : Bytes) (items : List Item) (fs : Fs) : Prop where
  exists_iff : ∀ path, fs.view path ≠ none ↔ path = [] ∨ ∃ item ∈ items, path <+: item.1
  file_iff : ∀ path content, fs.view path = some (.file content) ↔
    ∃ offset length, (path, Entry.file offset length) ∈ items ∧
      content = blob.slice offset length

variable {s : Snapshot} {blob : Bytes} {items : List Item} {fs : Fs}

theorem consistent_nil : Consistent blob [] := ⟨by simp, List.Pairwise.nil⟩

theorem holds_nil : Holds blob [] [] := by
  refine ⟨fun path => ?_, fun path content => ?_⟩
  · cases path with
    | nil => simp
    | cons name rest => simp [view_empty]
  · cases path with
    | nil => simp
    | cons name rest => simp [view_empty]

theorem consistent_concat {item : Item} (h : Consistent blob items) :
    Consistent blob (items ++ [item]) ↔
      item.Sound blob ∧ ∀ other ∈ items, other.Compatible item := by
  constructor
  · rintro ⟨hsound, hpairs⟩
    refine ⟨hsound item (by simp), fun other hother => ?_⟩
    exact (List.pairwise_append.1 hpairs).2.2 other hother item (List.mem_singleton_self item)
  · rintro ⟨hsound, hcompatible⟩
    refine ⟨fun other hother => ?_, List.pairwise_append.2 ⟨h.compatible, by simp, ?_⟩⟩
    · rcases List.mem_append.1 hother with hold | hnew
      · exact h.sound other hold
      · exact List.mem_singleton.1 hnew ▸ hsound
    · intro other hother new hnew
      exact List.mem_singleton.1 hnew ▸ hcompatible other hother

theorem Consistent.sublist {items' : List Item} (h : Consistent blob items)
    (hsub : items'.Sublist items) : Consistent blob items' :=
  ⟨fun item hitem => h.sound item (hsub.subset hitem), h.compatible.sublist hsub⟩

theorem Consistent.perm {items' : List Item} (h : Consistent blob items)
    (hperm : items.Perm items') : Consistent blob items' :=
  ⟨fun item hitem => h.sound item (hperm.mem_iff.2 hitem),
    hperm.pairwise h.compatible (Std.Symm.symm _ _)⟩

theorem Holds.perm {items' : List Item} (h : Holds blob items fs) (hperm : items.Perm items') :
    Holds blob items' fs := by
  constructor
  · simpa only [hperm.mem_iff] using h.exists_iff
  · simpa only [hperm.mem_iff] using h.file_iff

/-! ### One entry -/

theorem apply_of_shows (name : String) {change : EStateM FsError Fs Unit}
    {flat : FlatMap → Except FsError FlatMap} (h : Shows change flat) (fs : Fs) :
    match flat fs.view with
    | .error e => apply name change fs = .error (.refused name e)
    | .ok m => ∃ fs', apply name change fs = .ok fs' ∧ fs'.view = m := by
  have hfs := h fs
  rw [apply]
  cases hflat : flat fs.view with
  | error e =>
    rw [hflat] at hfs
    dsimp only at hfs ⊢
    rw [hfs]
  | ok m =>
    rw [hflat] at hfs
    obtain ⟨fs', hrun, hview, -⟩ := hfs
    rw [hrun]
    exact ⟨fs', rfl, hview⟩

/-- Directories are made unless a file is in the way. -/
theorem apply_makeDirs (name : String) {path : Path} (hnamed : path.Named) (fs : Fs) :
    fs.Clear path ∧ (∃ fs', apply name (changeAt path.render makeDirs) fs = .ok fs' ∧
      ∀ other, fs'.view other = if other <+: path then some .dir else fs.view other) ∨
    ¬ fs.Clear path ∧
      ∃ e, apply name (changeAt path.render makeDirs) fs = .error (.refused name e) := by
  have hchange : Shows (changeAt path.render makeDirs) (·.query path.render FlatMap.makeDirs) :=
    Shows.changeAt fun _ => shows_makeDirs
  have hshows := apply_of_shows name hchange fs
  rw [FlatMap.query, Path.parse?_render hnamed] at hshows
  dsimp only at hshows
  rw [FlatMap.makeDirs] at hshows
  by_cases hclear : fs.Clear path
  · rw [clear_iff_not_barred.1 hclear] at hshows
    obtain ⟨fs', hrun, hview⟩ := hshows
    exact Or.inl ⟨hclear, fs', hrun, fun other => congrFun hview other⟩
  · rw [clear_iff_not_barred, Bool.not_eq_false] at hclear
    rw [hclear] at hshows
    exact Or.inr ⟨by rw [clear_iff_not_barred, hclear]; simp, _, hshows⟩

/-- In a directory a file is placed where none stands. -/
theorem apply_place (name : String) {path : Path} (hnamed : path.Named) (data : Bytes) {fs : Fs}
    (hholder : fs.view path.dropLast = some .dir) :
    fs.view path ≠ some .dir ∧
      (∃ fs', apply name (changeAt path.render (place · data)) fs = .ok fs' ∧
        fs'.view = Function.update fs.view path (some (.file data))) ∨
    fs.view path = some .dir ∧
      ∃ e, apply name (changeAt path.render (place · data)) fs = .error (.refused name e) := by
  have hchange : Shows (changeAt path.render (place · data))
      (·.query path.render (·.place · data)) :=
    Shows.changeAt fun _ hnamed => shows_place hnamed data
  have hshows := apply_of_shows name hchange fs
  rw [FlatMap.query, Path.parse?_render hnamed] at hshows
  dsimp only at hshows
  rw [FlatMap.place, FlatMap.replace, FlatMap.reach] at hshows
  by_cases hroot : path = []
  · rw [if_pos hroot] at hshows
    subst hroot
    exact Or.inr ⟨rfl, _, hshows⟩
  · rw [if_neg hroot, FlatMap.find, hholder] at hshows
    dsimp only [Except.bind] at hshows
    cases hview : fs.view path with
    | none =>
      rw [hview] at hshows
      exact Or.inl ⟨by simp, hshows⟩
    | some stands =>
      rw [hview] at hshows
      cases stands with
      | dir => exact Or.inr ⟨rfl, _, hshows⟩
      | file old => exact Or.inl ⟨by simp, hshows⟩

/-- A file below the root is placed after the directories it lies in, unless a file is in the way
or a directory stands in its place. -/
theorem apply_makeDirs_place (name : String) {path : Path} (hnamed : path.Named)
    (hroot : path ≠ []) (data : Bytes) (fs : Fs) :
    let placed := (apply name (changeAt (Path.render path.dropLast) makeDirs) fs).bind
      (apply name (changeAt path.render (place · data)))
    (fs.Clear path.dropLast ∧ fs.view path ≠ some .dir) ∧
      (∃ fs', placed = .ok fs' ∧ ∀ other, fs'.view other =
        if other = path then some (.file data)
        else if other <+: path then some .dir
        else fs.view other) ∨
    ¬ (fs.Clear path.dropLast ∧ fs.view path ≠ some .dir) ∧
      ∃ e, placed = .error (.refused name e) := by
  intro placed
  have hholder := hnamed.of_isPrefix (List.dropLast_prefix path)
  rcases apply_makeDirs name hholder fs with ⟨hclear, between, hmade, hview⟩ | ⟨hclear, e, hrun⟩
  · have hplaced : placed = apply name (changeAt path.render (place · data)) between := by
      simp only [placed, hmade]
      rfl
    have hbelow : ¬ path <+: path.dropLast := fun h => by
      have hlength := h.length_le
      rw [List.length_dropLast] at hlength
      have := List.length_pos_of_ne_nil hroot
      omega
    have hhere : between.view path = fs.view path := by rw [hview, if_neg hbelow]
    have hmadeDir : between.view path.dropLast = some .dir := by simp [hview]
    rw [hplaced, ← hhere]
    rcases apply_place name hnamed data hmadeDir with
      ⟨hnodir, fs', hrun, hupdate⟩ | ⟨hdir, e, hrun⟩
    · refine Or.inl ⟨⟨hclear, hnodir⟩, fs', hrun, fun other => ?_⟩
      rw [hupdate]
      by_cases hother : other = path
      · simp [hother]
      · rw [Function.update_of_ne hother, hview, if_neg hother]
        simp only [Path.isPrefix_dropLast_iff hother]
    · exact Or.inr ⟨fun h => h.2 hdir, e, hrun⟩
  · refine Or.inr ⟨fun h => hclear h.1, e, ?_⟩
    simp only [placed, hrun]
    rfl

/-- Unpack an entry. -/
def unpack (s : Snapshot) (fs : Fs) (entry : String × Entry) : Except Corruption Fs :=
  match entry.2 with
  | .dir => loadDir fs entry.1
  | .file offset length => s.loadFile fs entry.1 offset length

/-- There is a place for an entry: no file is in the way, and no directory stands at the path of a
file, which lies in the blob. -/
def HasPlace (blob : Bytes) (fs : Fs) (item : Item) : Prop :=
  match item.2 with
  | .dir => fs.Clear item.1
  | .file offset length =>
    offset + length ≤ blob.size ∧ fs.Clear item.1.dropLast ∧ fs.view item.1 ≠ some .dir

/-- A failure that speaks of an entry: of its range, or of its place in the file system. -/
def Blames (s : Snapshot) (entry : String × Entry) (e : Corruption) : Prop :=
  (∃ offset length, entry.2 = .file offset length ∧ s.blob.size < offset + length ∧
    e = .outOfBlob entry.1 offset length s.blob.size) ∨
  ∃ error, e = .refused entry.1 error

/-- What stands at an entry's path and above it once it is unpacked. -/
def Adds (blob : Bytes) (fs : Fs) (item : Item) (fs' : Fs) : Prop :=
  ∀ other, fs'.view other =
    if other = item.1 then some (item.2.surface blob)
    else if other <+: item.1 then some .dir
    else fs.view other

/-- An entry is unpacked if there is a place for it, and else blamed. -/
theorem unpack_cases (s : Snapshot) (fs : Fs) {item : Item} (hnamed : item.1.Named) :
    HasPlace s.blob fs item ∧
      (∃ fs', s.unpack fs item.entry = .ok fs' ∧ Adds s.blob fs item fs') ∨
    ¬ HasPlace s.blob fs item ∧
      ∃ e, s.unpack fs item.entry = .error e ∧ s.Blames item.entry e := by
  obtain ⟨path, stands⟩ := item
  cases stands with
  | dir =>
    rcases apply_makeDirs path.render hnamed fs with ⟨hclear, fs', hrun, hview⟩ |
      ⟨hclear, error, hrun⟩
    · refine Or.inl ⟨hclear, fs', hrun, fun other => ?_⟩
      rw [hview]
      by_cases hother : other = path
      · simp [hother, Entry.surface]
      · simp [hother]
    · exact Or.inr ⟨hclear, _, hrun, Or.inr ⟨error, rfl⟩⟩
  | file offset length =>
    have hunpack : s.unpack fs (Item.entry (path, .file offset length)) =
        s.loadFile fs path.render offset length := rfl
    rw [hunpack, loadFile, rangeEnd]
    by_cases hblob : offset + length ≤ s.blob.size
    · rw [if_pos hblob]
      by_cases hroot : path = []
      · subst hroot
        dsimp only [bind, Except.bind]
        have hholder : fs.view (List.dropLast []) = some .dir := rfl
        rcases apply_place "/" hnamed (s.blob.slice offset length) hholder with
          ⟨hnodir, -⟩ | ⟨hdir, e, hrun⟩
        · exact absurd rfl hnodir
        · exact Or.inr ⟨fun h => h.2.2 rfl, _, hrun, Or.inr ⟨e, rfl⟩⟩
      · rw [Path.parentText?_render hnamed hroot]
        rcases apply_makeDirs_place path.render hnamed hroot (s.blob.slice offset length) fs with
          ⟨hplace, fs', hrun, hview⟩ | ⟨hplace, e, hrun⟩
        · exact Or.inl ⟨⟨hblob, hplace⟩, fs', hrun, hview⟩
        · exact Or.inr ⟨fun h => hplace h.2, _, hrun, Or.inr ⟨e, rfl⟩⟩
    · rw [if_neg hblob]
      refine Or.inr ⟨fun h => hblob h.1, _, rfl, Or.inl ?_⟩
      exact ⟨offset, length, rfl, Nat.not_le.1 hblob, rfl⟩

/-! ### Entries after others -/

theorem Holds.clear_iff (h : Holds blob items fs) {path : Path} :
    fs.Clear path ↔ ∀ other ∈ items, other.1 <+: path → other.2 = .dir := by
  constructor
  · intro hclear other hother habove
    obtain ⟨above, stands⟩ := other
    cases stands with
    | dir => rfl
    | file offset length =>
      exact absurd ((h.file_iff above _).2 ⟨offset, length, hother, rfl⟩) (hclear above habove _)
  · intro hdirs above habove content hfile
    obtain ⟨offset, length, hmem, -⟩ := (h.file_iff above content).1 hfile
    exact Entry.noConfusion (hdirs _ hmem habove)

/-- Where no entry stands, there is a directory just if the path leads to an entry. -/
theorem Holds.dir_iff (h : Holds blob items fs) {path : Path}
    (hfree : ∀ other ∈ items, other.1 ≠ path) :
    fs.view path = some .dir ↔ path = [] ∨ ∃ other ∈ items, path <+: other.1 := by
  rw [← h.exists_iff]
  refine ⟨fun hdir => by simp [hdir], fun hview => ?_⟩
  obtain ⟨stands, hstands⟩ := Option.ne_none_iff_exists'.1 hview
  cases stands with
  | dir => exact hstands
  | file content =>
    obtain ⟨offset, length, hmem, -⟩ := (h.file_iff path content).1 hstands
    exact absurd rfl (hfree _ hmem)

/-- There is a place for an entry just if it makes a tree together with those before it. -/
theorem Holds.hasPlace_iff (h : Holds blob items fs) (hitems : Consistent blob items) {item : Item}
    (hfree : ∀ other ∈ items, other.1 ≠ item.1) :
    HasPlace blob fs item ↔ Consistent blob (items ++ [item]) := by
  rw [consistent_concat hitems]
  obtain ⟨path, stands⟩ := item
  cases stands with
  | dir =>
    dsimp only [HasPlace]
    rw [h.clear_iff]
    constructor
    · intro hdirs
      exact ⟨fun _ _ hfile => Entry.noConfusion hfile, fun other hother =>
        ⟨hdirs other hother, fun _ => rfl⟩⟩
    · rintro ⟨-, hcompatible⟩ other hother
      exact (hcompatible other hother).1
  | file offset length =>
    dsimp only [HasPlace]
    rw [h.clear_iff, ne_eq, h.dir_iff hfree]
    constructor
    · rintro ⟨hblob, hdirs, hnodir⟩
      obtain ⟨hroot, hleaf⟩ := not_or.1 hnodir
      refine ⟨fun start size hfile => ?_, fun other hother => ⟨fun habove => ?_, fun hbelow => ?_⟩⟩
      · obtain ⟨rfl, rfl⟩ := Entry.file.inj hfile
        exact ⟨hroot, hblob⟩
      · exact hdirs other hother ((Path.isPrefix_dropLast_iff (hfree other hother)).2 habove)
      · exact absurd ⟨other, hother, hbelow⟩ hleaf
    · rintro ⟨hsound, hcompatible⟩
      obtain ⟨hroot, hblob⟩ := hsound offset length rfl
      refine ⟨hblob, fun other hother habove => ?_, ?_⟩
      · exact (hcompatible other hother).1 (habove.trans (List.dropLast_prefix path))
      · rintro (hnil | ⟨other, hother, hbelow⟩)
        · exact hroot hnil
        · exact Entry.noConfusion ((hcompatible other hother).2 hbelow)

theorem Adds.view_ne_none_iff {item : Item} {fs' : Fs} (h : Adds blob fs item fs') (other : Path) :
    fs'.view other ≠ none ↔ other <+: item.1 ∨ fs.view other ≠ none := by
  rw [h other]
  split_ifs with hhere habove
  · simp [hhere]
  · simp [habove]
  · simp [habove]

/-- What is there after an entry more. -/
theorem Holds.concat (h : Holds blob items fs) {item : Item} {fs' : Fs}
    (hfree : ∀ other ∈ items, other.1 ≠ item.1) (hitems : Consistent blob (items ++ [item]))
    (hadds : Adds blob fs item fs') : Holds blob (items ++ [item]) fs' := by
  constructor
  · intro path
    rw [hadds.view_ne_none_iff, h.exists_iff]
    simp only [List.mem_append, List.mem_singleton, or_and_right, exists_or, exists_eq_left]
    rw [or_comm, or_assoc]
  · intro path content
    have hpairs := (List.pairwise_append.1 hitems.compatible).2.2
    simp only [List.mem_append, List.mem_singleton]
    rw [hadds path]
    split_ifs with hhere habove
    · rw [Option.some.injEq, Entry.surface_eq_file_iff]
      refine exists_congr fun offset => exists_congr fun length => and_congr_left fun _ => ?_
      constructor
      · intro hstands
        exact Or.inr (Prod.ext hhere hstands.symm)
      · rintro (hold | hnew)
        · exact absurd hhere (hfree _ hold)
        · rw [← hnew]
    · refine iff_of_false (by simp) ?_
      rintro ⟨offset, length, hold | hnew, -⟩
      · exact Entry.noConfusion ((hpairs _ hold item (List.mem_singleton_self item)).1 habove)
      · exact hhere (congrArg Prod.fst hnew)
    · rw [h.file_iff]
      refine exists_congr fun offset => exists_congr fun length => and_congr_left fun _ => ?_
      refine ⟨Or.inl, ?_⟩
      rintro (hold | hnew)
      · exact hold
      · exact absurd (congrArg Prod.fst hnew) hhere

/-- One entry more is unpacked just if it makes a tree together with those before it. -/
theorem Holds.unpack (h : Holds s.blob items fs) (hitems : Consistent s.blob items) {item : Item}
    (hnamed : item.1.Named) (hfree : ∀ other ∈ items, other.1 ≠ item.1) :
    Consistent s.blob (items ++ [item]) ∧
      (∃ fs', s.unpack fs item.entry = .ok fs' ∧ Holds s.blob (items ++ [item]) fs') ∨
    ¬ Consistent s.blob (items ++ [item]) ∧
      ∃ e, s.unpack fs item.entry = .error e ∧ s.Blames item.entry e := by
  rw [← h.hasPlace_iff hitems hfree]
  rcases unpack_cases s fs hnamed with ⟨hplace, fs', hrun, hadds⟩ | hrefused
  · have hmore := (h.hasPlace_iff hitems hfree).1 hplace
    exact Or.inl ⟨hplace, fs', hrun, h.concat hfree hmore hadds⟩
  · exact Or.inr hrefused

/-- Entries are all unpacked just if they make a tree together with those before them. -/
theorem Holds.unpack_all {list : List Item} (h : Holds s.blob items fs)
    (hitems : Consistent s.blob items) (hnamed : ∀ item ∈ list, item.1.Named)
    (hfree : (items ++ list).Pairwise fun a b => a.1 ≠ b.1) :
    Consistent s.blob (items ++ list) ∧
      (∃ fs', (list.map Item.entry).foldlM s.unpack fs = .ok fs' ∧
        Holds s.blob (items ++ list) fs') ∨
    ¬ Consistent s.blob (items ++ list) ∧
      ∃ e, (list.map Item.entry).foldlM s.unpack fs = .error e ∧
        ∃ item ∈ list, s.Blames item.entry e := by
  induction list generalizing items fs with
  | nil =>
    rw [List.append_nil]
    exact Or.inl ⟨hitems, fs, rfl, h⟩
  | cons first rest ih =>
    have hsplit : items ++ first :: rest = (items ++ [first]) ++ rest := by simp
    have hfirst : ∀ other ∈ items, other.1 ≠ first.1 := fun other hother =>
      (List.pairwise_append.1 hfree).2.2 other hother first (List.mem_cons_self ..)
    rw [List.map_cons, List.foldlM_cons]
    rcases h.unpack hitems (hnamed first (List.mem_cons_self ..)) hfirst with
      ⟨hmore, between, hrun, hbetween⟩ | ⟨hless, e, hrun, hblames⟩
    · rw [hrun, hsplit]
      dsimp only [bind, Except.bind]
      rcases ih hbetween hmore (fun item hitem => hnamed item (List.mem_cons_of_mem _ hitem))
          (hsplit ▸ hfree) with hok | ⟨hless, e, herror, item, hitem, hblames⟩
      · exact Or.inl hok
      · exact Or.inr ⟨hless, e, herror, item, List.mem_cons_of_mem _ hitem, hblames⟩
    · rw [hrun, hsplit]
      refine Or.inr ⟨fun hall => hless (hall.sublist (List.sublist_append_left _ _)), e, rfl,
        first, List.mem_cons_self .., hblames⟩

/-! ### All entries -/

/-- An index is unpacked entry by entry, its directories before its files. -/
theorem load_eq_unpack (s : Snapshot) :
    s.load = (s.index.filter (·.2 = .dir) ++ s.index.filter (¬ ·.2 = .dir)).foldlM s.unpack [] := by
  have hdirs : (fun fs (entry : String × Entry) =>
      if decide (entry.2 = .dir) then s.unpack fs entry else pure fs) = unpackDir := by
    funext fs entry
    obtain ⟨key, stands⟩ := entry
    cases stands <;> rfl
  have hfiles : (fun fs (entry : String × Entry) =>
      if decide (¬ entry.2 = .dir) then s.unpack fs entry else pure fs) = s.unpackFile := by
    funext fs entry
    obtain ⟨key, stands⟩ := entry
    cases stands <;> rfl
  rw [load_eq, List.foldlM_append, List.foldlM_filter, hdirs, ← hfiles]
  simp only [List.foldlM_filter]
  rfl

/-- The entries of an index, whose keys are the texts of paths. -/
structure Itemizes (items : List Item) (s : Snapshot) : Prop where
  index : items.map Item.entry = s.index
  named : ∀ item ∈ items, item.1.Named

theorem exists_itemizes (hnormal : ∀ key ∈ s.index.keys, Path.normalize? key = some key) :
    ∃ items, Itemizes items s := by
  have hlist : ∀ list : Index, (∀ key ∈ list.keys, Path.normalize? key = some key) →
      ∃ items : List Item, items.map Item.entry = list ∧ ∀ item ∈ items, item.1.Named := by
    intro list hlist
    induction list with
    | nil => exact ⟨[], rfl, by simp⟩
    | cons first rest ih =>
      obtain ⟨path, hnamed, hrender⟩ :=
        Path.exists_of_normalize?_self (hlist first.1 (List.mem_cons_self ..))
      obtain ⟨items, hitems, hrest⟩ := ih fun key hkey => hlist key (List.mem_cons_of_mem _ hkey)
      refine ⟨(path, first.2) :: items, ?_, List.forall_mem_cons.2 ⟨hnamed, hrest⟩⟩
      rw [List.map_cons, hitems, Item.entry, hrender]
  obtain ⟨items, hindex, hnamed⟩ := hlist s.index hnormal
  exact ⟨items, hindex, hnamed⟩

namespace Itemizes

theorem mem_iff (h : Itemizes items s) (hindex : s.index.Increasing) {path : Path}
    {stands : Entry} : (path, stands) ∈ items ↔
      ∃ key, s.index.get? key = some stands ∧ Path.parse? key = some path := by
  constructor
  · intro hmem
    have hentry : (path.render, stands) ∈ s.index := h.index ▸ List.mem_map_of_mem hmem
    exact ⟨path.render, hindex.get?_of_mem hentry, Path.parse?_render (h.named _ hmem)⟩
  · rintro ⟨key, hget, hparse⟩
    have hentry := Table.mem_of_get? hget
    rw [← h.index] at hentry
    obtain ⟨⟨path', stands'⟩, hmem, heq⟩ := List.mem_map.1 hentry
    obtain ⟨rfl, rfl⟩ := Prod.mk.inj heq
    rw [Path.parse?_render (h.named _ hmem)] at hparse
    exact Option.some.inj hparse ▸ hmem

/-- Different entries stand at different paths. -/
theorem pairwise_ne (h : Itemizes items s) (hindex : s.index.Increasing) :
    items.Pairwise fun a b => a.1 ≠ b.1 := by
  have hkeys := List.pairwise_map.1 hindex.nodup
  rw [← h.index] at hkeys
  exact (List.pairwise_map.1 hkeys).imp fun hne heq => hne (congrArg Path.render heq)

/-- The order in which entries are unpacked. -/
theorem load_eq (h : Itemizes items s) :
    ∃ order : List Item, order.Perm items ∧
      s.load = (order.map Item.entry).foldlM s.unpack [] := by
  refine ⟨items.filter (·.2 = .dir) ++ items.filter (¬ ·.2 = .dir), ?_, ?_⟩
  · have hperm := List.filter_append_perm (fun item : Item => decide (item.2 = .dir)) items
    simpa only [decide_not] using hperm
  · rw [load_eq_unpack, ← h.index, List.map_append, List.filter_map, List.filter_map]
    rfl

end Itemizes

/-! ### Trees -/

/-- All files lie in the blob, none stands at the root, and none above another key. -/
structure TreeShaped (s : Snapshot) : Prop where
  inBlob : ∀ key offset length, s.index.get? key = some (.file offset length) →
    offset + length ≤ s.blob.size
  root : ¬ s.ListsFile "/"
  apart : ∀ file key above path, s.ListsFile file → key ∈ s.index.keys →
    Path.parse? file = some above → Path.parse? key = some path → above <+: path → above = path

/-- There is the root, and what is listed or lies above what is listed. The files are those that
are listed, with their bytes of the blob. -/
structure Unpacks (s : Snapshot) (fs : Fs) : Prop where
  exists_iff : ∀ path, fs.view path ≠ none ↔
    path = [] ∨ ∃ key ∈ s.index.keys, ∃ whole, Path.parse? key = some whole ∧ path <+: whole
  file_iff : ∀ path content, fs.view path = some (.file content) ↔
    ∃ key offset length, s.index.get? key = some (.file offset length) ∧
      Path.parse? key = some path ∧ content = s.blob.slice offset length

namespace Itemizes

theorem treeShaped_iff (h : Itemizes items s) (hindex : s.index.Increasing) :
    s.TreeShaped ↔ Consistent s.blob items := by
  constructor
  · intro htree
    constructor
    · rintro ⟨path, stands⟩ hmem offset length rfl
      obtain ⟨key, hget, hparse⟩ := (h.mem_iff hindex).1 hmem
      refine ⟨?_, htree.inBlob key offset length hget⟩
      rintro rfl
      have hroot : ("/", Entry.file offset length) ∈ s.index := h.index ▸ List.mem_map_of_mem hmem
      exact htree.root ⟨offset, length, hindex.get?_of_mem hroot⟩
    · -- an entry is no file if another one lies below it
      have hdir : ∀ a ∈ items, ∀ b ∈ items, a.1 ≠ b.1 → a.1 <+: b.1 → a.2 = .dir := by
        rintro ⟨above, stands⟩ ha ⟨path, stands'⟩ hb hne habove
        obtain ⟨file, hfile, hfileparse⟩ := (h.mem_iff hindex).1 ha
        obtain ⟨key, hkey, hkeyparse⟩ := (h.mem_iff hindex).1 hb
        cases stands with
        | dir => rfl
        | file offset length =>
          have hkeys : key ∈ s.index.keys := Table.mem_keys_iff.2 (by simp [hkey])
          exact absurd (htree.apart file key above path ⟨offset, length, hfile⟩ hkeys hfileparse
            hkeyparse habove) hne
      refine (h.pairwise_ne hindex).imp_of_mem fun {a b} ha hb hne => ?_
      exact ⟨hdir a ha b hb hne, hdir b hb a ha hne.symm⟩
  · intro hitems
    constructor
    · intro key offset length hget
      obtain ⟨entry, hmem, heq⟩ := List.mem_map.1 (h.index.symm ▸ Table.mem_of_get? hget)
      exact (hitems.sound entry hmem offset length (congrArg Prod.snd heq)).2
    · rintro ⟨offset, length, hget⟩
      have hmem := (h.mem_iff hindex).2 ⟨"/", hget, rfl⟩
      exact (hitems.sound _ hmem offset length rfl).1 rfl
    · rintro file key above path ⟨offset, length, hfile⟩ hkey hfileparse hkeyparse habove
      obtain ⟨stands, hstands⟩ := Option.ne_none_iff_exists'.1 (Table.mem_keys_iff.1 hkey)
      have ha := (h.mem_iff hindex).2 ⟨file, hfile, hfileparse⟩
      have hb := (h.mem_iff hindex).2 ⟨key, hstands, hkeyparse⟩
      by_contra hne
      have hcompatible := hitems.compatible.forall ha hb fun heq => hne (congrArg Prod.fst heq)
      exact Entry.noConfusion (hcompatible.1 habove)

theorem unpacks (h : Itemizes items s) (hindex : s.index.Increasing)
    (hholds : Holds s.blob items fs) : s.Unpacks fs := by
  constructor
  · intro path
    rw [hholds.exists_iff]
    refine or_congr_right ⟨?_, ?_⟩
    · rintro ⟨⟨whole, stands⟩, hmem, habove⟩
      obtain ⟨key, hget, hparse⟩ := (h.mem_iff hindex).1 hmem
      exact ⟨key, Table.mem_keys_iff.2 (by simp [hget]), whole, hparse, habove⟩
    · rintro ⟨key, hkey, whole, hparse, habove⟩
      obtain ⟨stands, hget⟩ := Option.ne_none_iff_exists'.1 (Table.mem_keys_iff.1 hkey)
      exact ⟨(whole, stands), (h.mem_iff hindex).2 ⟨key, hget, hparse⟩, habove⟩
  · intro path content
    rw [hholds.file_iff]
    constructor
    · rintro ⟨offset, length, hmem, hcontent⟩
      obtain ⟨key, hget, hparse⟩ := (h.mem_iff hindex).1 hmem
      exact ⟨key, offset, length, hget, hparse, hcontent⟩
    · rintro ⟨key, offset, length, hget, hparse, hcontent⟩
      exact ⟨offset, length, (h.mem_iff hindex).2 ⟨key, hget, hparse⟩, hcontent⟩

end Itemizes

/-- If all keys of an index are normalized, it is unpacked just if it makes a tree, and what it
yields is this tree. A failure speaks of an entry of the index. -/
theorem load_spec (s : Snapshot) (hindex : s.index.Increasing)
    (hnormal : ∀ key ∈ s.index.keys, Path.normalize? key = some key) :
    ((∃ fs, s.load = .ok fs) ↔ s.TreeShaped) ∧ (∀ fs, s.load = .ok fs → s.Unpacks fs) ∧
    ∀ e, s.load = .error e → ∃ entry ∈ s.index, s.Blames entry e := by
  obtain ⟨items, hitems⟩ := exists_itemizes hnormal
  obtain ⟨order, hperm, hload⟩ := hitems.load_eq
  have hnamed : ∀ item ∈ order, item.1.Named := fun item hitem =>
    hitems.named item (hperm.mem_iff.1 hitem)
  have hfree : order.Pairwise fun a b => a.1 ≠ b.1 :=
    hperm.symm.pairwise (hitems.pairwise_ne hindex) Ne.symm
  rw [hitems.treeShaped_iff hindex, hload]
  rcases holds_nil.unpack_all consistent_nil hnamed hfree with
    ⟨hconsistent, fs, hrun, hholds⟩ | ⟨hconsistent, e, hrun, item, hitem, hblames⟩
  · rw [hrun]
    refine ⟨iff_of_true ⟨fs, rfl⟩ (hconsistent.perm hperm), fun fs' hfs' => ?_, by simp⟩
    rw [← Except.ok.inj hfs']
    exact hitems.unpacks hindex (hholds.perm hperm)
  · rw [hrun]
    refine ⟨iff_of_false (by simp) fun h => hconsistent (h.perm hperm.symm), by simp, ?_⟩
    intro e' he'
    rw [← Except.error.inj he']
    refine ⟨item.entry, ?_, hblames⟩
    rw [← hitems.index]
    exact List.mem_map_of_mem (hperm.mem_iff.1 hitem)

/-- A file whose name goes on where that of a directory stops comes between the directory and what
lies in it. -/
theorem load_spec_between :
    let s : Snapshot :=
      ⟨[("/f", .dir), ("/f-x", .file 1 1), ("/f/g", .file 0 2)], ⟨#[120, 121]⟩⟩
    let fs : Fs := [("f", .dir [("g", .file ⟨#[120, 121]⟩)]), ("f-x", .file ⟨#[121]⟩)]
    s.index.Increasing ∧ (∀ key ∈ s.index.keys, Path.normalize? key = some key) ∧
      s.load = .ok fs ∧ s.TreeShaped ∧ s.Unpacks fs := by
  intro s fs
  have hindex : s.index.Increasing := by
    simp only [s, Table.Increasing, Table.keys, List.map_cons, List.map_nil]
    decide
  have hnormal : ∀ key ∈ s.index.keys, Path.normalize? key = some key := by decide +kernel
  have hload : s.load = .ok fs := rfl
  obtain ⟨htree, hunpacks, -⟩ := load_spec s hindex hnormal
  exact ⟨hindex, hnormal, hload, htree.1 ⟨fs, hload⟩, hunpacks fs hload⟩

end Snapshot

end StagedSandbox
