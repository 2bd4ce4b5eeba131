import StagedSandbox.Proofs.Fs.Force
import StagedSandbox.Proofs.Path
import StagedSandbox.Snapshot.Basic

/-!
# Unpacking snapshots

A snapshot represents a file system if its index lists what stands at each path below the root,
and its blob holds the contents (`Snapshot.Represents`). It is then valid, and the file system is
what unpacking it yields (`Snapshot.Represents.validate`, `Snapshot.Represents.load`).
-/

namespace StagedSandbox

namespace Fs

theorem WellFormed.named_of_view {fs : Fs} (h : fs.WellFormed) {path : Path}
    (hview : fs.view path ≠ none) : path.Named := by
  induction path generalizing fs with
  | nil => exact Path.Named.nil
  | cons name rest ih =>
    cases hget : fs.get? name with
    | none => exact absurd (view_cons_of_none hget rest) hview
    | some node =>
      have hname : Path.IsName name := by
        cases h with
        | dir order names nodes => exact names _ (Table.mem_of_get? hget)
      refine Path.named_cons.2 ⟨hname, ?_⟩
      cases node with
      | dir children =>
        rw [view_cons_of_dir hget] at hview
        exact ih (Node.WellFormed.of_get? h hget) hview
      | file content =>
        by_cases hrest : rest = []
        · exact hrest ▸ Path.Named.nil
        · exact absurd (view_cons_of_file hget hrest) hview

/-- All that a file system shows is what another one shows. -/
structure PartOf (part fs : Fs) : Prop where
  wellFormed : part.WellFormed
  view : ∀ path, part.view path = none ∨ part.view path = fs.view path

theorem PartOf.empty (fs : Fs) : PartOf [] fs := by
  refine ⟨WellFormed.empty, fun path => ?_⟩
  cases path with
  | nil => exact Or.inr rfl
  | cons name rest => exact Or.inl (view_empty (by simp))

theorem PartOf.eq {part fs : Fs} (h : part.PartOf fs) (hfs : fs.WellFormed)
    (hall : ∀ path : Path, path ≠ [] → fs.view path ≠ none → part.view path ≠ none) :
    part = fs := by
  refine h.wellFormed.ext_view hfs fun path => ?_
  rcases h.view path with hnone | heq
  · by_cases hpath : path = []
    · simp [hpath] at hnone
    · rw [hnone]
      by_contra hne
      have hview : fs.view path ≠ none := fun hnone' => hne hnone'.symm
      exact hall path hpath hview hnone
  · exact heq

theorem PartOf.clear {part fs : Fs} (h : part.PartOf fs) {path : Path}
    (hdir : fs.view path = some .dir) : part.Clear path := by
  rintro above ⟨rest, rfl⟩ content hfile
  rcases h.view above with hnone | heq
  · simp [hnone] at hfile
  · by_cases hrest : rest = []
    · rw [hrest, List.append_nil] at hdir
      rw [heq, hdir] at hfile
      simp at hfile
    · have habove := view_eq_dir_of_isPrefix hrest (by rw [hdir]; simp)
      rw [heq, habove] at hfile
      simp at hfile

/-- Directories of the whole can be made in a part of it. -/
theorem PartOf.makeDirs {part fs : Fs} (h : part.PartOf fs) (hfs : fs.WellFormed) {path : Path}
    (hdir : fs.view path = some .dir) :
    ∃ more, Fs.makeDirs path part = .ok () more ∧ more.PartOf fs ∧
      more.view path = some .dir ∧ ∀ other, part.view other ≠ none → more.view other ≠ none := by
  have hnamed : path.Named := hfs.named_of_view (by simp [hdir])
  obtain ⟨more, hrun, hmore⟩ := makeDirs_of_clear (h.clear hdir)
  refine ⟨more, hrun, ⟨hmore.wellFormed h.wellFormed hnamed, fun other => ?_⟩, ?_, fun other => ?_⟩
  · rw [hmore.view]
    split
    · next hunder =>
      obtain ⟨rest, rfl⟩ := hunder
      by_cases hrest : rest = []
      · rw [hrest, List.append_nil] at hdir
        exact Or.inr hdir.symm
      · exact Or.inr (view_eq_dir_of_isPrefix hrest (by rw [hdir]; simp)).symm
    · exact h.view other
  · simp [hmore.view]
  · rw [hmore.view]
    split
    · simp
    · exact id

/-- With one more file of the whole, a part is still a part of it, and shows no less. -/
theorem PartOf.of_replaced {part more fs : Fs} (h : part.PartOf fs) (hfs : fs.WellFormed)
    {path : Path} {content : Bytes} (hfile : fs.view path = some (.file content))
    (hreplaced : part.Replaced path (some (.file content)) more) :
    more.PartOf fs ∧ more.view path ≠ none ∧
      ∀ other, part.view other ≠ none → more.view other ≠ none := by
  have hnamed : path.Named := hfs.named_of_view (by simp [hfile])
  have hwf : more.WellFormed := hreplaced.wellFormed h.wellFormed hnamed fun node hnode =>
    Option.some.inj hnode ▸ .file content
  have hbelow : ∀ rest, rest ≠ [] → more.view (path ++ rest) = none := by
    intro rest hrest
    obtain ⟨name, below, rfl⟩ := List.exists_cons_of_ne_nil hrest
    rw [view_append, hreplaced.here]
    rfl
  have hhere : more.view path = some (.file content) := view_eq_file_iff.2 hreplaced.here
  refine ⟨⟨hwf, fun other => ?_⟩, by simp [hhere], fun other hother => ?_⟩
  · by_cases hunder : path <+: other
    · obtain ⟨rest, rfl⟩ := hunder
      by_cases hrest : rest = []
      · rw [hrest, List.append_nil, hhere, hfile]
        exact Or.inr rfl
      · exact Or.inl (hbelow rest hrest)
    · rw [hreplaced.beside other hunder]
      exact h.view other
  · by_cases hunder : path <+: other
    · obtain ⟨rest, rfl⟩ := hunder
      by_cases hrest : rest = []
      · simp [hrest, hhere]
      · -- nothing stands below the path of a file
        rcases h.view (path ++ rest) with hnone | heq
        · exact absurd hnone hother
        · have hdir' := view_eq_dir_of_isPrefix hrest (heq ▸ hother)
          rw [hfile] at hdir'
          simp at hdir'
    · rwa [hreplaced.beside other hunder]

/-- A file of the whole can be placed in a part of it that has its directory. -/
theorem PartOf.place {part fs : Fs} (h : part.PartOf fs) (hfs : fs.WellFormed) {path : Path}
    {content : Bytes} (hne : path ≠ []) (hfile : fs.view path = some (.file content))
    (hholder : part.view path.dropLast = some .dir) :
    ∃ more, Fs.place path content part = .ok () more ∧ more.PartOf fs ∧
      more.view path ≠ none ∧ ∀ other, part.view other ≠ none → more.view other ≠ none := by
  obtain ⟨children, hdir⟩ := view_eq_dir_iff.1 hholder
  have hreach : part.reach path = .ok (part.lookup path) := by
    have hconcat := reach_concat_of_dir hdir (path.getLast hne)
    rwa [← lookup_concat_of_dir hdir, List.dropLast_append_getLast hne] at hconcat
  have hplace := follows_place path content part
  have hdecide : Decide.place content (part.lookup path) = .ok ((), some (.file content)) := by
    rcases h.view path with hnone | heq
    · rw [view_eq_none_iff.1 hnone]
      rfl
    · rw [view_eq_file_iff.1 (heq.trans hfile)]
      rfl
  rw [hreach] at hplace
  dsimp only [Except.bind] at hplace
  rw [hdecide] at hplace
  obtain ⟨more, hrun, hreplaced⟩ := hplace
  exact ⟨more, hrun, h.of_replaced hfs hfile hreplaced⟩

end Fs

/-- What an entry stands for. -/
def Entry.surface (blob : Bytes) : Entry → Surface
  | .dir => .dir
  | .file offset length => .file (blob.slice offset length)

namespace Snapshot

/-- The index lists what stands at each path below the root, and the contents of files lie apart in
the blob. -/
structure Represents (s : Snapshot) (fs : Fs) : Prop where
  increasing : s.index.Increasing
  wellFormed : fs.WellFormed
  keys : ∀ key ∈ s.index.keys, ∃ path : Path, path ≠ [] ∧ path.Named ∧ key = path.render
  view : ∀ path : Path, path ≠ [] → path.Named →
    fs.view path = (s.index.get? path.render).map (Entry.surface s.blob)
  inBlob : ∀ key offset length, s.index.get? key = some (.file offset length) →
    offset + length ≤ s.blob.size
  apart : ∀ key offset length key' offset' length', key ≠ key' →
    s.index.get? key = some (.file offset length) →
    s.index.get? key' = some (.file offset' length') →
    offset + length ≤ offset' ∨ offset' + length' ≤ offset

theorem represents_empty : Represents {} [] where
  increasing := Table.increasing_nil
  wellFormed := Fs.WellFormed.empty
  keys := by simp [Table.keys]
  view path hne _ := Fs.view_empty hne
  inBlob := by simp
  apart := by simp

/-! ### Unpacking -/

theorem apply_changeAt (name : String) (change : Path → Fs.Change Unit) {path : Path}
    {text : String} {fs fs' : Fs} (htext : Path.parse? text = some path)
    (hrun : change path fs = .ok () fs') : apply name (Fs.changeAt text change) fs = .ok fs' := by
  have hat : Fs.changeAt text change fs = .ok () fs' := by
    rw [Fs.changeAt, htext]
    rw [Fs.atText, EStateM.adaptExcept]
    dsimp only
    rw [hrun]
  rw [apply, hat]

variable {s : Snapshot} {fs part : Fs}

theorem loadDir_of_dir (h : part.PartOf fs) (hfs : fs.WellFormed) {path : Path}
    (hdir : fs.view path = some .dir) :
    ∃ more, loadDir part path.render = .ok more ∧ more.PartOf fs ∧ more.view path ≠ none ∧
      ∀ other, part.view other ≠ none → more.view other ≠ none := by
  have hnamed : path.Named := hfs.named_of_view (by simp [hdir])
  obtain ⟨more, hrun, hpart, hmade, hkeep⟩ := h.makeDirs hfs hdir
  exact ⟨more, apply_changeAt _ _ (Path.parse?_render hnamed) hrun, hpart, by simp [hmade], hkeep⟩

theorem loadFile_of_file (h : part.PartOf fs) (hfs : fs.WellFormed) {path : Path}
    {offset length : Nat} (hne : path ≠ [])
    (hfile : fs.view path = some (.file (s.blob.slice offset length)))
    (hblob : offset + length ≤ s.blob.size) :
    ∃ more, s.loadFile part path.render offset length = .ok more ∧ more.PartOf fs ∧
      more.view path ≠ none ∧ ∀ other, part.view other ≠ none → more.view other ≠ none := by
  have hnamed : path.Named := hfs.named_of_view (by simp [hfile])
  have hholder : fs.view path.dropLast = some .dir := by
    have hsplit := List.dropLast_append_getLast hne
    refine Fs.view_eq_dir_of_isPrefix (List.cons_ne_nil (path.getLast hne) []) ?_
    rw [hsplit, hfile]
    simp
  obtain ⟨between, hmade, hbetween, hdir, hkeep⟩ := h.makeDirs hfs hholder
  obtain ⟨more, hplaced, hmore, hhere, hkeep'⟩ := hbetween.place hfs hne hfile hdir
  refine ⟨more, ?_, hmore, hhere, fun other hother => hkeep' other (hkeep other hother)⟩
  have hparent := apply_changeAt path.render Fs.makeDirs
    (Path.parse?_render (hnamed.of_isPrefix (List.dropLast_prefix path))) hmade
  have hself := apply_changeAt path.render (Fs.place · (s.blob.slice offset length))
    (Path.parse?_render hnamed) hplaced
  rw [loadFile, rangeEnd, if_pos hblob, Path.parentText?_render hnamed hne]
  dsimp only [bind, Except.bind]
  rw [hparent]
  exact hself

/-- A fold whose steps succeed on what the steps before have left. -/
theorem foldlM_of_steps {α β ε : Type} {step : β → α → Except ε β} (inv : List α → β → Prop)
    (list : List α)
    (hstep : ∀ done a b, a ∈ list → inv done b → ∃ b', step b a = .ok b' ∧ inv (done ++ [a]) b')
    (done : List α) {b : β} (h : inv done b) :
    ∃ b', list.foldlM step b = .ok b' ∧ inv (done ++ list) b' := by
  induction list generalizing done b with
  | nil => exact ⟨b, rfl, by rwa [List.append_nil]⟩
  | cons first rest ih =>
    obtain ⟨between, hfirst, hbetween⟩ := hstep done first b (List.mem_cons_self ..) h
    obtain ⟨b', hrest, hinv⟩ := ih
      (fun done a b ha => hstep done a b (List.mem_cons_of_mem _ ha)) (done ++ [first]) hbetween
    refine ⟨b', ?_, by simpa using hinv⟩
    rw [List.foldlM_cons, hfirst]
    exact hrest

/-- Entries stand for what the file system shows. -/
theorem Represents.of_mem (h : s.Represents fs) {entry : String × Entry} (hmem : entry ∈ s.index) :
    ∃ path : Path, path ≠ [] ∧ entry.1 = path.render ∧
      fs.view path = some (entry.2.surface s.blob) := by
  obtain ⟨path, hne, hnamed, hkey⟩ := h.keys entry.1 (List.mem_map_of_mem hmem)
  refine ⟨path, hne, hkey, ?_⟩
  rw [h.view path hne hnamed, ← hkey, h.increasing.get?_of_mem hmem]
  rfl

/-- All that is shown below the root is listed. -/
theorem Represents.exists_mem (h : s.Represents fs) {path : Path} (hne : path ≠ [])
    (hview : fs.view path ≠ none) : ∃ entry, (path.render, entry) ∈ s.index := by
  rw [h.view path hne (h.wellFormed.named_of_view hview), ne_eq, Option.map_eq_none_iff] at hview
  obtain ⟨entry, hentry⟩ := Option.ne_none_iff_exists'.1 hview
  exact ⟨entry, Table.mem_of_get? hentry⟩

/-- A part of a file system in which the paths of some entries are there. -/
structure Unpacked (fs : Fs) (entries : String × Entry → Prop) (part : Fs) : Prop where
  partOf : part.PartOf fs
  view : ∀ path : Path, path.Named → ∀ entry, entries (path.render, entry) → part.view path ≠ none

theorem Unpacked.add {entries entries' : String × Entry → Prop} {more : Fs} {path : Path}
    (h : Unpacked fs entries part) (hmore : more.PartOf fs) (hnamed : path.Named)
    (hhere : more.view path ≠ none)
    (hkeep : ∀ other, part.view other ≠ none → more.view other ≠ none)
    (hentries : ∀ entry, entries' entry → entries entry ∨ entry.1 = path.render) :
    Unpacked fs entries' more := by
  refine ⟨hmore, fun other hother entry hentry => ?_⟩
  rcases hentries _ hentry with hold | hnew
  · exact hkeep other (h.view other hother entry hold)
  · rwa [(Path.render_inj hother hnamed).1 hnew]

/-- Unpack an entry if it is a directory. -/
def unpackDir (fs : Fs) (entry : String × Entry) : Except Corruption Fs :=
  match entry.2 with
  | .dir => loadDir fs entry.1
  | .file _ _ => .ok fs

/-- Unpack an entry if it is a file. -/
def unpackFile (s : Snapshot) (fs : Fs) (entry : String × Entry) : Except Corruption Fs :=
  match entry.2 with
  | .dir => .ok fs
  | .file offset length => s.loadFile fs entry.1 offset length

theorem load_eq (s : Snapshot) :
    s.load = (s.index.foldlM unpackDir []).bind (s.index.foldlM s.unpackFile) := rfl

/-- All directories are unpacked. -/
theorem Represents.load_dirs (h : s.Represents fs) :
    ∃ part, s.index.foldlM unpackDir [] = .ok part ∧
      Unpacked fs (fun entry => entry ∈ s.index ∧ entry.2 = .dir) part := by
  refine foldlM_of_steps (fun done part => Unpacked fs (fun entry => entry ∈ done ∧ entry.2 = .dir)
    part) s.index (fun done entry part hmem hpart => ?_) [] ⟨Fs.PartOf.empty fs, by simp⟩
  obtain ⟨path, hne, hkey, hview⟩ := h.of_mem hmem
  have hnamed : path.Named := h.wellFormed.named_of_view (by simp [hview])
  obtain ⟨key, stands⟩ := entry
  obtain rfl : key = path.render := hkey
  cases stands with
  | dir =>
    obtain ⟨more, hrun, hmore, hhere, hkeep⟩ := loadDir_of_dir hpart.partOf h.wellFormed hview
    refine ⟨more, hrun, hpart.add hmore hnamed hhere hkeep fun entry hentry => ?_⟩
    rcases List.mem_append.1 hentry.1 with hold | hnew
    · exact Or.inl ⟨hold, hentry.2⟩
    · exact Or.inr (by rw [List.mem_singleton.1 hnew])
  | file offset length =>
    refine ⟨part, rfl, hpart.partOf, fun other hother entry hentry => ?_⟩
    rcases List.mem_append.1 hentry.1 with hold | hnew
    · exact hpart.view other hother entry ⟨hold, hentry.2⟩
    · simp_all

/-- And then all files. -/
theorem Represents.load_files (h : s.Represents fs)
    (hpart : Unpacked fs (fun entry => entry ∈ s.index ∧ entry.2 = .dir) part) :
    ∃ more, s.index.foldlM s.unpackFile part = .ok more ∧
      Unpacked fs (fun entry => entry ∈ s.index ∧ entry.2 = .dir ∨ entry ∈ s.index) more := by
  refine foldlM_of_steps (fun done part => Unpacked fs
    (fun entry => entry ∈ s.index ∧ entry.2 = .dir ∨ entry ∈ done) part) s.index
    (fun done entry part hmem hpart => ?_) [] (by simpa using hpart)
  obtain ⟨path, hne, hkey, hview⟩ := h.of_mem hmem
  have hnamed : path.Named := h.wellFormed.named_of_view (by simp [hview])
  obtain ⟨key, stands⟩ := entry
  obtain rfl : key = path.render := hkey
  cases stands with
  | dir =>
    refine ⟨part, rfl, hpart.partOf, fun other hother entry hentry => ?_⟩
    rcases hentry with hdir | hdone
    · exact hpart.view other hother entry (Or.inl hdir)
    · rcases List.mem_append.1 hdone with hold | hnew
      · exact hpart.view other hother entry (Or.inr hold)
      · have hsame := List.mem_singleton.1 hnew
        exact hpart.view other hother entry (Or.inl ⟨hsame ▸ hmem, by rw [hsame]⟩)
  | file offset length =>
    have hblob := h.inBlob path.render offset length (h.increasing.get?_of_mem hmem)
    obtain ⟨more, hrun, hmore, hhere, hkeep⟩ :=
      loadFile_of_file hpart.partOf h.wellFormed hne hview hblob
    refine ⟨more, hrun, hpart.add hmore hnamed hhere hkeep fun entry hentry => ?_⟩
    rcases hentry with hdir | hdone
    · exact Or.inl (Or.inl hdir)
    · rcases List.mem_append.1 hdone with hold | hnew
      · exact Or.inl (Or.inr hold)
      · exact Or.inr (by rw [List.mem_singleton.1 hnew])

/-- Unpacking yields the file system that a snapshot represents. -/
theorem Represents.load (h : s.Represents fs) : s.load = .ok fs := by
  obtain ⟨dirs, hdirs, hunpacked⟩ := h.load_dirs
  obtain ⟨all, hfiles, hall⟩ := h.load_files hunpacked
  have heq : all = fs := by
    refine hall.partOf.eq h.wellFormed fun path hne hview => ?_
    obtain ⟨entry, hmem⟩ := h.exists_mem hne hview
    exact hall.view path (h.wellFormed.named_of_view hview) entry (Or.inr hmem)
  rw [load_eq, hdirs, ← heq]
  exact hfiles

end Snapshot

end StagedSandbox
