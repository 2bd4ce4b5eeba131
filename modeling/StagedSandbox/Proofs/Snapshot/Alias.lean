import StagedSandbox.Proofs.Fs.Reachable

/-!
# Keys for one path

The keys of an index are texts, and two of them may denote one path. The files are unpacked in the
order of their keys, so that of several files at one path the last one stays: reading any of their
keys yields its bytes (`Snapshot.read_of_load`). A key that no other one shares its path with yields
the bytes that the index promises for it.
-/

namespace StagedSandbox

namespace Index

theorem increasing_of_foldlM_addJson {entries : List (Json.Text × Json.Value)}
    {index index' : Index} (h : index.Increasing)
    (hrun : entries.foldlM addJson index = some index') : index'.Increasing := by
  induction entries generalizing index with
  | nil => exact Option.some.inj hrun ▸ h
  | cons first rest ih =>
    rw [List.foldlM_cons] at hrun
    obtain ⟨between, hfirst, hrest⟩ := Option.bind_eq_some_iff.1 hrun
    obtain ⟨key, -, hkey⟩ := Option.bind_eq_some_iff.1 hfirst
    obtain ⟨entry, -, hentry⟩ := Option.bind_eq_some_iff.1 hkey
    refine ih ?_ hrest
    rw [← Option.some.inj hentry]
    exact h.insert _ _

/-- The keys of an index that is read are in order, whatever their order in the text. -/
theorem increasing_of_parse? {bytes : Bytes} {index : Index} (h : parse? bytes = some index) :
    index.Increasing := by
  obtain ⟨text, -, htext⟩ := Option.bind_eq_some_iff.1 h
  obtain ⟨value, -, hvalue⟩ := Option.bind_eq_some_iff.1 htext
  cases value with
  | object entries => exact increasing_of_foldlM_addJson Table.increasing_nil hvalue
  | _ => simp [ofJson?] at hvalue

end Index

namespace Snapshot

open Fs

/-! ### Unpacking one file -/

theorem view_of_place {name text : String} {content : Bytes} {fs fs' : Fs}
    (hrun : apply name (changeAt text (place · content)) fs = .ok fs') :
    ∃ path, Path.parse? text = some path ∧
      fs'.view = Function.update fs.view path (some (.file content)) := by
  have hview := (shows_of_apply (Shows.changeAt fun _ hnamed => shows_place hnamed content) hrun).1
  obtain ⟨path, hparse, hplaced⟩ := FlatMap.exists_of_query hview
  obtain ⟨new, hnew, hupdate⟩ := FlatMap.eq_of_replace hplaced
  refine ⟨path, hparse, ?_⟩
  split at hnew
  · cases hnew
  · cases hnew
    exact hupdate

/-- A file that is unpacked stands at the path of its key, and files at other paths stay. -/
theorem view_of_loadFile {s : Snapshot} {key : String} {offset length : Nat} {fs fs' : Fs}
    (hrun : s.loadFile fs key offset length = .ok fs') :
    offset + length ≤ s.blob.size ∧ ∃ path, Path.parse? key = some path ∧
      fs'.view path = some (.file (s.blob.slice offset length)) ∧
      ∀ other content, other ≠ path → fs.view other = some (.file content) →
        fs'.view other = some (.file content) := by
  obtain ⟨hblob, between, hbetween, hplaced⟩ := loadFile_cases hrun
  obtain ⟨path, hparse, hview⟩ := view_of_place hplaced
  refine ⟨hblob, path, hparse, ?_, fun other content hne hfile => ?_⟩
  · rw [hview, Function.update_self]
  rw [hview, Function.update_of_ne hne]
  rcases hbetween with rfl | ⟨parent, hmade⟩
  · exact hfile
  · exact Fs.file_of_makeDirs (run_of_apply hmade) hfile

/-! ### Unpacking all files -/

/-- An entry is a file at a path. -/
def FileAt (path : Path) (entry : String × Entry) : Prop :=
  entry.2 ≠ .dir ∧ Path.parse? entry.1 = some path

instance (path : Path) (entry : String × Entry) : Decidable (FileAt path entry) :=
  inferInstanceAs (Decidable (entry.2 ≠ .dir ∧ Path.parse? entry.1 = some path))

/-- Entries that are no files at a path leave the file there as it is. -/
theorem file_of_unpackFile {s : Snapshot} {fs fs' : Fs} {entry : String × Entry}
    (hrun : s.unpackFile fs entry = .ok fs') {path : Path} (hother : ¬ FileAt path entry)
    {content : Bytes} (hfile : fs.view path = some (.file content)) :
    fs'.view path = some (.file content) := by
  obtain ⟨key, stands⟩ := entry
  cases stands with
  | dir => exact Except.ok.inj hrun ▸ hfile
  | file offset length =>
    obtain ⟨-, path', hparse, -, hkeep⟩ := view_of_loadFile hrun
    refine hkeep path content (fun heq => hother ⟨by simp, ?_⟩) hfile
    rw [hparse, heq]

/-- A fold that succeeds has succeeded at each element. -/
theorem foldlM_split {α β ε : Type} {step : β → α → Except ε β} {before after : List α} {a : α}
    {b b' : β} (h : (before ++ a :: after).foldlM step b = .ok b') :
    ∃ c c', before.foldlM step b = .ok c ∧ step c a = .ok c' ∧ after.foldlM step c' = .ok b' := by
  rw [List.foldlM_append] at h
  obtain ⟨c, hbefore, hlater⟩ := Action.exists_of_bind_eq_ok h
  rw [List.foldlM_cons] at hlater
  obtain ⟨c', hstep, hafter⟩ := Action.exists_of_bind_eq_ok hlater
  exact ⟨c, c', hbefore, hstep, hafter⟩

theorem exists_files_of_load {s : Snapshot} {fs : Fs} (h : s.load = .ok fs) :
    ∃ dirs, s.index.foldlM s.unpackFile dirs = .ok fs := by
  rw [load_eq] at h
  obtain ⟨dirs, -, hfiles⟩ := Action.exists_of_bind_eq_ok h
  exact ⟨dirs, hfiles⟩

/-- The file that no later one at its path follows is the one that stays. -/
theorem view_of_last {s : Snapshot} {fs : Fs} (h : s.load = .ok fs) {before after : Index}
    {last : String} {offset length : Nat}
    (hsplit : s.index = before ++ (last, .file offset length) :: after) {path : Path}
    (hparse : Path.parse? last = some path) (hafter : ∀ entry ∈ after, ¬ FileAt path entry) :
    fs.view path = some (.file (s.blob.slice offset length)) := by
  obtain ⟨dirs, hfiles⟩ := exists_files_of_load h
  rw [hsplit] at hfiles
  obtain ⟨part, more, -, hlast, hrest⟩ := foldlM_split hfiles
  obtain ⟨-, path', hparse', hhere, -⟩ := view_of_loadFile hlast
  obtain rfl : path' = path := Option.some.inj (hparse'.symm.trans hparse)
  have hkeep : ∀ entry ∈ after, ∀ fs fs' : Fs,
      fs.view path' = some (.file (s.blob.slice offset length)) → s.unpackFile fs entry = .ok fs' →
      fs'.view path' = some (.file (s.blob.slice offset length)) :=
    fun entry hentry _ _ hfile hrun => file_of_unpackFile hrun (hafter entry hentry) hfile
  exact foldlM_keeps hkeep hhere hrest

/-- All files of a snapshot that can be unpacked lie in its blob, and their keys denote paths. -/
theorem file_of_load {s : Snapshot} {fs : Fs} (h : s.load = .ok fs) {key : String}
    {offset length : Nat} (hmem : (key, Entry.file offset length) ∈ s.index) :
    offset + length ≤ s.blob.size ∧ ∃ path, Path.parse? key = some path := by
  obtain ⟨dirs, hfiles⟩ := exists_files_of_load h
  obtain ⟨before, after, hsplit⟩ := List.append_of_mem hmem
  rw [hsplit] at hfiles
  obtain ⟨part, more, -, hkey, -⟩ := foldlM_split hfiles
  obtain ⟨hblob, path, hparse, -⟩ := view_of_loadFile hkey
  exact ⟨hblob, path, hparse⟩

/-! ### The last key -/

/-- A file is listed under a key. -/
def ListsFile (s : Snapshot) (key : String) : Prop :=
  ∃ offset length, s.index.get? key = some (.file offset length)

/-- The last key, in their order, of all those under which files are listed at one path. -/
structure LastKey (s : Snapshot) (path : Path) (last : String) : Prop where
  lists : s.ListsFile last
  denotes : Path.parse? last = some path
  le : ∀ other, s.ListsFile other → Path.parse? other = some path → other ≤ last

/-- An element that has a property is followed by a last one. -/
theorem exists_last {α : Type} (p : α → Prop) [DecidablePred p] {list : List α} {a : α}
    (hmem : a ∈ list) (ha : p a) :
    ∃ before last after, list = before ++ last :: after ∧ p last ∧ ∀ other ∈ after, ¬ p other := by
  have hsome : (list.reverse.find? (p ·)).isSome :=
    List.find?_isSome.2 ⟨a, List.mem_reverse.2 hmem, decide_eq_true ha⟩
  obtain ⟨last, hfind⟩ := Option.isSome_iff_exists.1 hsome
  obtain ⟨hlast, after, before, hsplit, hafter⟩ := List.find?_eq_some_iff_append.1 hfind
  refine ⟨before.reverse, last, after.reverse, ?_, of_decide_eq_true hlast, fun other hother => ?_⟩
  · have hlist := congrArg List.reverse hsplit
    simpa using hlist
  · simpa using hafter other (List.mem_reverse.1 hother)

/-- Of the files at a path, the one that no later one follows is listed under the last key. -/
theorem lastKey_of_split {s : Snapshot} (hindex : s.index.Increasing) {before after : Index}
    {last : String} {offset length : Nat}
    (hsplit : s.index = before ++ (last, .file offset length) :: after) {path : Path}
    (hparse : Path.parse? last = some path) (hafter : ∀ entry ∈ after, ¬ FileAt path entry) :
    s.LastKey path last := by
  have hmem : (last, Entry.file offset length) ∈ s.index := by simp [hsplit]
  refine ⟨⟨offset, length, hindex.get?_of_mem hmem⟩, hparse, fun other hother hsame => ?_⟩
  obtain ⟨offset', length', hget⟩ := hother
  have hentry := Table.mem_of_get? hget
  rw [hsplit] at hentry
  rcases List.mem_append.1 hentry with hbefore | hrest
  · have horder := List.pairwise_map.1 hindex
    rw [hsplit, List.pairwise_append] at horder
    exact String.not_lt.1 (String.lt_asymm (horder.2.2 _ hbefore _ (List.mem_cons_self ..)))
  · rcases List.mem_cons.1 hrest with heq | hbehind
    · obtain ⟨rfl, -⟩ := Prod.mk.inj heq
      exact String.le_refl other
    · exact absurd ⟨by simp, hsame⟩ (hafter _ hbehind)

theorem fileBytes_of_inBlob {s : Snapshot} {key : String} {offset length : Nat}
    (hget : s.index.get? key = some (.file offset length)) (hblob : offset + length ≤ s.blob.size) :
    s.fileBytes key = some (s.blob.slice offset length) := by
  rw [fileBytes, hget]
  exact if_pos hblob

theorem query_read_of_view {fs : Fs} {text : String} {path : Path} {content : Bytes}
    (hparse : Path.parse? text = some path) (hview : fs.view path = some (.file content)) :
    fs.query text Fs.read = .ok content := by
  have hfind := find_eq_ok_iff.2 (view_eq_file_iff.1 hview)
  rw [query, hparse]
  dsimp only
  rw [Fs.read, hfind]
  rfl

/-- At the path of a file stands what the index promises for the last key of the path. -/
theorem exists_lastKey {s : Snapshot} {fs : Fs} (hindex : s.index.Increasing)
    (hload : s.load = .ok fs) {key : String} {offset length : Nat}
    (hmem : (key, Entry.file offset length) ∈ s.index) {path : Path}
    (hparse : Path.parse? key = some path) :
    ∃ last content, s.LastKey path last ∧ s.fileBytes last = some content ∧
      fs.view path = some (.file content) := by
  obtain ⟨before, ⟨last, stands⟩, after, hsplit, ⟨hfile, hdenotes⟩, hafter⟩ :=
    exists_last (FileAt path) hmem ⟨by simp, hparse⟩
  cases stands with
  | dir => exact absurd rfl hfile
  | file start size =>
    have hlast : (last, Entry.file start size) ∈ s.index := by simp [hsplit]
    have hblob := (file_of_load hload hlast).1
    exact ⟨last, _, lastKey_of_split hindex hsplit hdenotes hafter,
      fileBytes_of_inBlob (hindex.get?_of_mem hlast) hblob,
      view_of_last hload hsplit hdenotes hafter⟩

/-- Reading a file of an unpacked snapshot yields the bytes that the index promises for the last
key that denotes the same path. These are its own ones if no other key does, so in particular if
all keys are normalized. -/
theorem read_of_load {index blob : Bytes} {s : Snapshot} {fs : Fs}
    (hparts : ofParts index blob = .ok s) (hload : s.load = .ok fs) {key : String}
    {offset length : Nat} (hkey : s.index.get? key = some (.file offset length)) :
    s.fileBytes key = some (blob.slice offset length) ∧
    (∃ path last content, Path.parse? key = some path ∧ s.LastKey path last ∧
      s.fileBytes last = some content ∧ fs.query key Fs.read = .ok content) ∧
    ((∀ other, s.ListsFile other → Path.parse? other = Path.parse? key → other = key) →
      fs.query key Fs.read = .ok (blob.slice offset length)) ∧
    ((∀ other, s.ListsFile other → Path.normalize? other = some other) →
      fs.query key Fs.read = .ok (blob.slice offset length)) := by
  obtain ⟨hindex, rfl⟩ : s.index.Increasing ∧ s.blob = blob := by
    rw [ofParts] at hparts
    split at hparts
    · next hparse =>
      rw [← Except.ok.inj hparts]
      exact ⟨Index.increasing_of_parse? hparse, rfl⟩
    · simp at hparts
  have hmem := Table.mem_of_get? hkey
  obtain ⟨hblob, path, hparse⟩ := file_of_load hload hmem
  have hbytes := fileBytes_of_inBlob hkey hblob
  obtain ⟨last, content, hlast, hcontent, hview⟩ := exists_lastKey hindex hload hmem hparse
  have hquery := query_read_of_view hparse hview
  have hown : (∀ other, s.ListsFile other → Path.parse? other = Path.parse? key → other = key) →
      fs.query key Fs.read = .ok (s.blob.slice offset length) := by
    intro hunique
    have heq := hunique last hlast.lists (hlast.denotes.trans hparse.symm)
    rw [heq, hbytes] at hcontent
    rw [hquery, Option.some.inj hcontent]
  refine ⟨hbytes, ⟨path, last, content, hparse, hlast, hcontent, hquery⟩, hown, fun hnormal => ?_⟩
  refine hown fun other hother hsame => ?_
  have hnormalized := hnormal other hother
  rw [Path.normalize?, hsame, ← Path.normalize?, hnormal key ⟨offset, length, hkey⟩] at hnormalized
  exact (Option.some.inj hnormalized).symm

/-- A slash too many: the file is read as the last key promises, which is the other one. -/
theorem read_of_load_slashes :
    let s : Snapshot := ⟨[("//a", .file 0 1), ("/a", .file 1 1)], ⟨#[120, 121]⟩⟩
    let fs : Fs := [("a", .file ⟨#[121]⟩)]
    ofParts (.ofText "\x7b\"/a\":[1,1],\"//a\":[0,1]\x7d") s.blob = .ok s ∧ s.load = .ok fs ∧
      s.index.get? "//a" = some (.file 0 1) ∧ s.fileBytes "//a" = some ⟨#[120]⟩ ∧
      ∃ last content, s.LastKey ["a"] last ∧ s.fileBytes last = some content ∧
        fs.query "//a" Fs.read = .ok content := by
  intro s fs
  have hindex : Index.parse? (.ofText "\x7b\"/a\":[1,1],\"//a\":[0,1]\x7d") = some s.index := by
    decide +kernel
  have hparts : ofParts (.ofText "\x7b\"/a\":[1,1],\"//a\":[0,1]\x7d") s.blob = .ok s := by
    rw [ofParts, hindex]
  obtain ⟨hbytes, ⟨path, last, content, hparse, hlast, hcontent, hread⟩, -⟩ :=
    read_of_load hparts (rfl : s.load = .ok fs) (rfl : s.index.get? "//a" = some (.file 0 1))
  obtain rfl : ["a"] = path := Option.some.inj (hparse ▸ rfl)
  exact ⟨hparts, rfl, rfl, hbytes, last, content, hlast, hcontent, hread⟩

/-- A valid snapshot is unpacked, and one of its keys, a normalized one, is not read as its index
promises: another key leads to the same path and comes later. -/
theorem shadowed_file :
    ∃ s fs, ofParts (.ofText "\x7b\"/a\":[0,1],\"/lib/../a\":[1,1]\x7d") ⟨#[120, 121]⟩ = .ok s ∧
      s.validate = .ok () ∧ s.load = .ok fs ∧ s.index.get? "/a" = some (.file 0 1) ∧
      s.fileBytes "/a" = some ⟨#[120]⟩ ∧ fs.query "/a" Fs.read = .ok ⟨#[121]⟩ := by
  let s : Snapshot := ⟨[("/a", .file 0 1), ("/lib/../a", .file 1 1)], ⟨#[120, 121]⟩⟩
  have hindex : Index.parse? (.ofText "\x7b\"/a\":[0,1],\"/lib/../a\":[1,1]\x7d") =
      some s.index := by
    decide +kernel
  have hranges : s.ranges s.index = .ok [⟨0, 1, "/a"⟩, ⟨1, 2, "/lib/../a"⟩] := rfl
  refine ⟨s, [("a", .file ⟨#[121]⟩)], ?_, ?_, rfl, rfl, rfl, rfl⟩
  · rw [ofParts, hindex]
  · rw [validate, hranges]
    dsimp only [bind, Except.bind]
    rw [List.mergeSort_of_pairwise (by decide)]
    rfl

end Snapshot

end StagedSandbox
