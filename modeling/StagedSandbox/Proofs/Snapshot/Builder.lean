import StagedSandbox.Proofs.Bytes
import StagedSandbox.Proofs.Snapshot.Index
import StagedSandbox.Proofs.Snapshot.Valid
import StagedSandbox.Snapshot.Builder

/-!
# Built snapshots

A snapshot that is built step by step represents at any time the file system in which the same
steps have cleared their way (`Snapshot.represents_build`). So it is valid, and unpacking it yields
this file system: of two entries for one path the later one counts.
-/

namespace StagedSandbox

/-- A directory or a file that is added to a snapshot. -/
inductive Addition where
  | dir (path : String)
  | file (path : String) (content : Bytes)

namespace Addition

/-- Add to a snapshot. -/
def add (s : Snapshot) : Addition → Except Misconfiguration Snapshot
  | .dir path => s.addDir path
  | .file path content => s.addFile path content

/-- Add to a file system, whatever is in the way. -/
def force (fs : Fs) : Addition → Fs
  | .dir path => fs.forceDir ((Path.parse? path).getD [])
  | .file path content => fs.forceFile content ((Path.parse? path).getD [])

end Addition

namespace Snapshot

/-- Add one after the other; what is refused changes nothing. -/
def build (s : Snapshot) : List Addition → Snapshot
  | [] => s
  | addition :: rest =>
    match addition.add s with
    | .ok s => s.build rest
    | .error _ => s.build rest

/-- The additions that are not refused. -/
def accepted (s : Snapshot) : List Addition → List Addition
  | [] => []
  | addition :: rest =>
    match addition.add s with
    | .ok s => addition :: s.accepted rest
    | .error _ => s.accepted rest

theorem addDir_eq (s : Snapshot) (text : String) :
    s.addDir text =
      match Path.parse? text with
      | none => .error (.invalidPath text)
      | some path =>
        if path = [] then .ok s
        else .ok { s with index := record (addAncestors s.index path) path.render .dir } := by
  rw [addDir, entryPath]
  cases Path.parse? text <;> rfl

theorem addFile_eq (s : Snapshot) (text : String) (content : Bytes) :
    s.addFile text content =
      match Path.parse? text with
      | none => .error (.invalidPath text)
      | some path =>
        if path = [] then .error .fileAtRoot
        else .ok {
          index := record (addAncestors s.index path) path.render (.file s.blob.size content.size)
          blob := s.blob ++ content } := by
  rw [addFile, entryPath]
  cases Path.parse? text with
  | none => rfl
  | some path =>
    simp only [bind, Except.bind]
    split <;> rfl

/-- All absolute paths are accepted; only the root cannot be a file. -/
theorem exists_add_iff (s : Snapshot) (addition : Addition) :
    (∃ s', addition.add s = .ok s') ↔
      match addition with
      | .dir text => ∃ path, Path.parse? text = some path
      | .file text _ => ∃ path, Path.parse? text = some path ∧ path ≠ [] := by
  cases addition with
  | dir text =>
    simp only [Addition.add, addDir_eq]
    cases Path.parse? text with
    | none => simp
    | some path => by_cases hroot : path = [] <;> simp [hroot]
  | file text content =>
    simp only [Addition.add, addFile_eq]
    cases Path.parse? text with
    | none => simp
    | some path => by_cases hroot : path = [] <;> simp [hroot]

/-! ### What an index lists after a step -/

theorem mem_ancestors {path other : Path} :
    other ∈ ancestors path ↔ other ≠ [] ∧ other <+: path ∧ other ≠ path := by
  rw [ancestors]
  rw [List.mem_map]
  constructor
  · rintro ⟨n, hn, rfl⟩
    rw [List.mem_range'_1] at hn
    have hlength : (path.take n).length = n := by rw [List.length_take]; omega
    refine ⟨fun hnil => ?_, List.take_prefix n path, fun heq => ?_⟩
    · rw [hnil, List.length_nil] at hlength
      omega
    · rw [heq] at hlength
      omega
  · rintro ⟨hne, hunder, hother⟩
    have hpos := List.length_pos_iff.2 hne
    have hlt : other.length < path.length :=
      Nat.lt_of_le_of_ne hunder.length_le fun heq => hother (hunder.eq_of_length heq)
    exact ⟨other.length, List.mem_range'_1.2 ⟨hpos, by omega⟩,
      (List.prefix_iff_eq_take.1 hunder).symm⟩

theorem get?_addAncestors (index : Index) (path : Path) (key : String) :
    (addAncestors index path).get? key =
      if key ∈ (ancestors path).map Path.render then some .dir else index.get? key := by
  have hfold : addAncestors index path = ((ancestors path).map Path.render).foldl
      (fun index key => Table.insert index key .dir) index := by
    rw [List.foldl_map]
    rfl
  rw [hfold, Table.get?_foldl_insert]

theorem increasing_addAncestors {index : Index} (h : index.Increasing) (path : Path) :
    (addAncestors index path).Increasing := by
  have hfold : addAncestors index path = ((ancestors path).map Path.render).foldl
      (fun index key => Table.insert index key .dir) index := by
    rw [List.foldl_map]
    rfl
  rw [hfold]
  exact h.foldl_insert _ _

theorem mem_map_render_ancestors {path other : Path} (hpath : path.Named) (hother : other.Named) :
    other.render ∈ (ancestors path).map Path.render ↔
      other ≠ [] ∧ other <+: path ∧ other ≠ path := by
  rw [List.mem_map]
  constructor
  · rintro ⟨above, habove, heq⟩
    obtain ⟨hne, hunder, hneq⟩ := mem_ancestors.1 habove
    rw [Path.render_inj (hpath.of_isPrefix hunder) hother] at heq
    exact heq ▸ ⟨hne, hunder, hneq⟩
  · exact fun h => ⟨other, mem_ancestors.2 h, rfl⟩

/-- What is listed after the directories above a path are recorded was listed before, or is one of
them. -/
theorem addAncestors_cases {index : Index} {path : Path} {key : String} {found : Entry}
    (hpath : path.Named) (h : (addAncestors index path).get? key = some found) :
    index.get? key = some found ∨
      ∃ above : Path, above ≠ [] ∧ above.Named ∧ key = above.render ∧ found = .dir := by
  rw [get?_addAncestors] at h
  split at h
  · next hkey =>
    obtain ⟨above, habove, heq⟩ := List.mem_map.1 hkey
    obtain ⟨hne, hunder, -⟩ := mem_ancestors.1 habove
    exact Or.inr ⟨above, hne, hpath.of_isPrefix hunder, heq.symm, (Option.some.inj h).symm⟩
  · exact Or.inl h

theorem isPrefixOf_below {path other : Path} (hpath : path.Named) (hother : other.Named)
    (hne : path ≠ []) :
    (Index.below path.render).isPrefixOf other.render.toList = true ↔
      path <+: other ∧ path ≠ other := by
  rw [Index.isPrefixOf_below_iff (Path.normal_render hpath), Path.isWithin_render hother hpath,
    Path.render_inj hother hpath, Path.render_eq_slash_iff hpath]
  refine and_congr_right fun _ => ⟨fun hself heq => ?_, fun hneq heq => absurd heq.symm hneq⟩
  exact hne (hself heq.symm)

/-- What is listed after an entry is recorded was listed before, or is that entry. -/
theorem record_cases {index : Index} {path key : String} {entry found : Entry}
    (h : (record index path entry).get? key = some found) :
    key = path ∧ found = entry ∨ key ≠ path ∧ index.get? key = some found := by
  have hinsert : (Table.insert index path entry).get? key = some found := by
    rw [record] at h
    split at h
    · rw [Index.get?_removeBelow] at h
      split at h
      · simp at h
      · exact h
    · exact h
  by_cases hkey : key = path
  · rw [hkey, Table.get?_insert_self] at hinsert
    exact Or.inl ⟨hkey, (Option.some.inj hinsert).symm⟩
  · rw [Table.get?_insert_of_ne index entry hkey] at hinsert
    exact Or.inr ⟨hkey, hinsert⟩

/-- What a step lists was listed before, is a directory, or is the entry of the step. -/
theorem listed_cases {index : Index} {path : Path} {key : String} {entry found : Entry}
    (hnamed : path.Named) (hne : path ≠ [])
    (h : (record (addAncestors index path) path.render entry).get? key = some found) :
    index.get? key = some found ∨
      ∃ other : Path, other ≠ [] ∧ other.Named ∧ key = other.render ∧
        (found = .dir ∨ other = path ∧ found = entry) := by
  rcases record_cases h with ⟨hkey, hentry⟩ | ⟨-, hget⟩
  · exact Or.inr ⟨path, hne, hnamed, hkey, Or.inr ⟨rfl, hentry⟩⟩
  · rcases addAncestors_cases hnamed hget with hold | ⟨above, hne', hnamed', hkey, hdir⟩
    · exact Or.inl hold
    · exact Or.inr ⟨above, hne', hnamed', hkey, Or.inl hdir⟩

theorem increasing_record {index : Index} (h : index.Increasing) (path : String) (entry : Entry) :
    (record index path entry).Increasing := by
  rw [record]
  split
  · exact (h.insert path entry).filter _
  · exact h.insert path entry

theorem get?_record_dir (index : Index) (path key : String) :
    (record index path .dir).get? key = if key = path then some .dir else index.get? key := by
  rw [record, if_neg (by simp)]
  split
  · next hkey => rw [hkey, Table.get?_insert_self]
  · next hkey => rw [Table.get?_insert_of_ne index _ hkey]

/-- A file takes the place of all that is listed at its path and below. -/
theorem get?_record_file {index : Index} {path other : Path} (hpath : path.Named)
    (hother : other.Named) (hne : path ≠ []) (offset length : Nat)
    (hbelow : index.get? path.render ≠ some .dir → path <+: other → path ≠ other →
      index.get? other.render = none) :
    (record index path.render (.file offset length)).get? other.render =
      if other = path then some (.file offset length)
      else if path <+: other then none
      else index.get? other.render := by
  have hinsert : other ≠ path →
      (Table.insert index path.render (.file offset length)).get? other.render =
        index.get? other.render := fun h =>
    Table.get?_insert_of_ne index _ fun heq => h ((Path.render_inj hother hpath).1 heq)
  by_cases heq : other = path
  · subst heq
    have hself : ¬ (Index.below other.render).isPrefixOf other.render.toList = true := by
      rw [isPrefixOf_below hother hother hne]
      exact fun h => h.2 rfl
    rw [if_pos rfl]
    rw [record]
    split
    · rw [Index.get?_removeBelow, if_neg hself, Table.get?_insert_self]
    · rw [Table.get?_insert_self]
  · rw [if_neg heq]
    have hiff := isPrefixOf_below hpath hother hne
    rw [record]
    split
    · rw [Index.get?_removeBelow, hinsert heq]
      by_cases hunder : path <+: other
      · rw [if_pos (hiff.2 ⟨hunder, Ne.symm heq⟩), if_pos hunder]
      · rw [if_neg fun h => hunder (hiff.1 h).1, if_neg hunder]
    · next hdir =>
      rw [hinsert heq]
      by_cases hunder : path <+: other
      · rw [if_pos hunder]
        exact hbelow (fun h => hdir ⟨h, by simp⟩) hunder (Ne.symm heq)
      · rw [if_neg hunder]

/-! ### One step -/

theorem slice_append_self (blob content : Bytes) :
    Bytes.slice (blob ++ content) blob.size content.size = content := by
  rw [Bytes.slice, ByteArray.extract_append_eq_right rfl rfl]

variable {s s' : Snapshot} {fs fs' : Fs}

/-- A snapshot represents what a step makes of it if the step only lists directories and the range
that it appends to the blob. -/
theorem Represents.of_step (h : s.Represents fs) {content : Bytes} (goal : Path)
    (hblob : s'.blob = s.blob ++ content) (hincreasing : s'.index.Increasing)
    (hwf : fs'.WellFormed)
    (hentries : ∀ key entry, s'.index.get? key = some entry → s.index.get? key = some entry ∨
      ∃ path : Path, path ≠ [] ∧ path.Named ∧ key = path.render ∧
        (entry = .dir ∨ path = goal ∧ entry = .file s.blob.size content.size))
    (hview : ∀ path : Path, path ≠ [] → path.Named →
      fs'.view path = (s'.index.get? path.render).map (Entry.surface s'.blob)) :
    s'.Represents fs' := by
  have hfile : ∀ key offset length, s'.index.get? key = some (.file offset length) →
      s.index.get? key = some (.file offset length) ∨
        key = goal.render ∧ offset = s.blob.size ∧ length = content.size := by
    intro key offset length hget
    rcases hentries key _ hget with hold | ⟨path, -, -, hkey, hdir | ⟨hgoal, hnew⟩⟩
    · exact Or.inl hold
    · simp at hdir
    · obtain ⟨rfl, rfl⟩ := Entry.file.inj hnew
      exact Or.inr ⟨hgoal ▸ hkey, rfl, rfl⟩
  refine ⟨hincreasing, hwf, fun key hkey => ?_, hview, fun key offset length hget => ?_, ?_⟩
  · obtain ⟨entry, hget⟩ := Option.ne_none_iff_exists'.1 (Table.mem_keys_iff.1 hkey)
    rcases hentries key entry hget with hold | ⟨path, hne, hnamed, hkey, -⟩
    · exact h.keys key (Table.mem_keys_iff.2 (by simp [hold]))
    · exact ⟨path, hne, hnamed, hkey⟩
  · rw [hblob, ByteArray.size_append]
    rcases hfile key offset length hget with hold | ⟨-, rfl, rfl⟩
    · have := h.inBlob key offset length hold
      omega
    · exact Nat.le_refl _
  · intro key offset length key' offset' length' hne hget hget'
    rcases hfile key offset length hget with hold | ⟨hkey, rfl, rfl⟩
    · rcases hfile key' offset' length' hget' with hold' | ⟨-, rfl, rfl⟩
      · exact h.apart key offset length key' offset' length' hne hold hold'
      · exact Or.inl (h.inBlob key offset length hold)
    · rcases hfile key' offset' length' hget' with hold' | ⟨hkey', -, -⟩
      · exact Or.inr (h.inBlob key' offset' length' hold')
      · exact absurd (hkey.trans hkey'.symm) hne

/-- What was listed before still stands for the same. -/
theorem Represents.map_surface (h : s.Represents fs) (content : Bytes) (key : String) :
    (s.index.get? key).map (Entry.surface (s.blob ++ content)) =
      (s.index.get? key).map (Entry.surface s.blob) := by
  cases hget : s.index.get? key with
  | none => rfl
  | some entry =>
    cases entry with
    | dir => rfl
    | file offset length =>
      have hslice := Bytes.slice_append_of_le (h.inBlob key offset length hget) content
      exact congrArg (some ∘ Surface.file) hslice

theorem Represents.view_addAncestors (h : s.Represents fs) {path other : Path}
    (hpath : path.Named) (hother : other.Named) (hne : other ≠ []) (content : Bytes) :
    ((addAncestors s.index path).get? other.render).map (Entry.surface (s.blob ++ content)) =
      if other <+: path ∧ other ≠ path then some .dir else fs.view other := by
  have hmem := mem_map_render_ancestors hpath hother
  rw [get?_addAncestors]
  by_cases habove : other <+: path ∧ other ≠ path
  · rw [if_pos (hmem.2 ⟨hne, habove⟩), if_pos habove]
    rfl
  · rw [if_neg fun hm => habove (hmem.1 hm).2, if_neg habove, h.map_surface,
      ← h.view other hne hother]

/-- Where no directory is listed, nothing is listed below. -/
theorem Represents.get?_addAncestors_below (h : s.Represents fs) {path other : Path}
    (hnamed : path.Named) (hnamed' : other.Named) (hne : path ≠ [])
    (hdir : (addAncestors s.index path).get? path.render ≠ some .dir) (hunder : path <+: other)
    (hneq : path ≠ other) : (addAncestors s.index path).get? other.render = none := by
  have hnot : ¬ (other <+: path ∧ other ≠ path) := fun h' =>
    hneq (hunder.eq_of_length_le h'.1.length_le)
  obtain ⟨rest, rfl⟩ := hunder
  have hrest : rest ≠ [] := by
    rintro rfl
    simp at hneq
  have hhere := h.view_addAncestors hnamed hnamed hne ByteArray.empty
  have hthere := h.view_addAncestors hnamed hnamed' (by simp [hne]) ByteArray.empty
  rw [if_neg fun hself => hself.2 rfl] at hhere
  rw [if_neg hnot] at hthere
  by_contra hlisted
  have hview := Fs.view_eq_dir_of_isPrefix hrest
    fun hnone => hlisted (Option.map_eq_none_iff.1 (hthere.trans hnone))
  rw [hview, Option.map_eq_some_iff] at hhere
  obtain ⟨entry, hget, hentry⟩ := hhere
  cases entry with
  | dir => exact hdir hget
  | file offset length => simp [Entry.surface] at hentry

theorem Represents.addDir (h : s.Represents fs) {path : Path} (hnamed : path.Named)
    (hne : path ≠ []) :
    Represents { s with index := record (addAncestors s.index path) path.render .dir }
      (fs.forceDir path) := by
  have hextended := Fs.extended_forceDir fs path
  have hblob : s.blob = s.blob ++ ByteArray.empty := ByteArray.append_empty.symm
  refine h.of_step path hblob (increasing_record (increasing_addAncestors h.increasing path) _ _)
    (hextended.wellFormed h.wellFormed hnamed) (fun key entry hget => ?_)
    fun other hother hnamed' => ?_
  · rcases listed_cases hnamed hne hget with hold | ⟨other, hother, hnamed', hkey, hentry⟩
    · exact Or.inl hold
    · exact Or.inr ⟨other, hother, hnamed', hkey, Or.inl (hentry.elim id And.right)⟩
  · have hrender := Path.render_inj hnamed' hnamed
    rw [hextended.view, get?_record_dir]
    by_cases heq : other = path
    · rw [if_pos (hrender.2 heq), if_pos (heq ▸ List.prefix_refl path)]
      rfl
    · have habove := h.view_addAncestors hnamed hnamed' hother ByteArray.empty
      rw [← hblob] at habove
      rw [if_neg (mt hrender.1 heq), habove]
      simp [heq]

theorem Represents.addFile (h : s.Represents fs) {path : Path} (hnamed : path.Named)
    (hne : path ≠ []) (content : Bytes) :
    Represents ⟨record (addAncestors s.index path) path.render (.file s.blob.size content.size),
      s.blob ++ content⟩ (fs.forceFile content path) := by
  refine h.of_step path rfl (increasing_record (increasing_addAncestors h.increasing path) _ _)
    (Fs.wellFormed_forceFile h.wellFormed content hnamed)
    (fun key entry hget => listed_cases hnamed hne hget) fun other hother hnamed' => ?_
  have habove := h.view_addAncestors hnamed hnamed' hother content
  have hbelow := h.get?_addAncestors_below hnamed hnamed' hne
  rw [get?_record_file hnamed hnamed' hne _ _ hbelow, Fs.view_forceFile fs content hne]
  by_cases heq : other = path
  · rw [if_pos heq, if_pos heq]
    exact congrArg (some ∘ Surface.file) (slice_append_self s.blob content).symm
  · rw [if_neg heq, if_neg heq]
    by_cases hunder : path <+: other
    · have hnot : ¬ other <+: path := fun h' => heq (h'.eq_of_length_le hunder.length_le)
      rw [if_pos hunder, if_neg hnot, if_pos hunder]
      rfl
    · rw [if_neg hunder, if_neg hunder]
      refine Eq.trans ?_ habove.symm
      simp [heq]

/-- After a step a snapshot represents the file system in which the step has cleared its way. -/
theorem Represents.add (h : s.Represents fs) {addition : Addition}
    (hadd : addition.add s = .ok s') : s'.Represents (addition.force fs) := by
  cases addition with
  | dir text =>
    rw [Addition.add, addDir_eq] at hadd
    cases hparse : Path.parse? text with
    | none => simp [hparse] at hadd
    | some path =>
      simp only [hparse] at hadd
      rw [Addition.force, hparse, Option.getD_some]
      split at hadd
      · next hroot =>
        obtain rfl := Except.ok.inj hadd
        rwa [hroot]
      · next hne =>
        obtain rfl := Except.ok.inj hadd
        exact h.addDir (Path.named_of_parse? hparse) hne
  | file text content =>
    rw [Addition.add, addFile_eq] at hadd
    cases hparse : Path.parse? text with
    | none => simp [hparse] at hadd
    | some path =>
      simp only [hparse] at hadd
      rw [Addition.force, hparse, Option.getD_some]
      split at hadd
      · cases hadd
      · next hne =>
        obtain rfl := Except.ok.inj hadd
        exact h.addFile (Path.named_of_parse? hparse) hne content

/-- Whatever is added, a snapshot represents all that was not refused. -/
theorem Represents.build (h : s.Represents fs) (additions : List Addition) :
    (s.build additions).Represents ((s.accepted additions).foldl Addition.force fs) := by
  induction additions generalizing s fs with
  | nil => exact h
  | cons addition rest ih =>
    rw [Snapshot.build, Snapshot.accepted]
    cases hadd : addition.add s with
    | ok s' => exact ih (h.add hadd)
    | error e => exact ih h

/-- Every built snapshot is valid, and unpacking it yields what its additions leave when each of
them, in turn, takes the place of what was there. -/
theorem load_build (additions : List Addition) :
    (build {} additions).validate = .ok () ∧
      (build {} additions).load = .ok ((accepted {} additions).foldl Addition.force []) := by
  have h := represents_empty.build additions
  exact ⟨h.validate, h.load⟩

/-- A file that makes way for a directory with a file in it, and two additions that are refused. -/
def mixedAdditions : List Addition :=
  [.file "/a" (Bytes.ofText "x"), .file "b" (Bytes.ofText "y"),
    .file "/a/../a/b/c" (Bytes.ofText "z"), .file "/" (Bytes.ofText "w"), .dir "/d"]

example :
    (accepted {} mixedAdditions).length = 3 ∧
      ((build {} mixedAdditions).load.toOption.bind fun fs => (fs.query "/" Fs.list).toOption) =
        some ["a", "d"] ∧
      ((build {} mixedAdditions).load.toOption.bind fun fs =>
        (fs.query "/a/b/c" Fs.read).toOption) = some (Bytes.ofText "z") := by
  decide +kernel

end Snapshot

end StagedSandbox
