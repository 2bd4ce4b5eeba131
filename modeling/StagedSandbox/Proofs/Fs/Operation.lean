import StagedSandbox.Proofs.Fs.FlatChange

/-!
# Operations on a file system

The operations that change a file system, on paths given as text. An operation does to a file
system what it does to a flat map (`Fs.Operation.shows`), and one that is refused has changed
nothing (`Fs.Operation.eq_of_refused`). The file that an operation edits is the one that is read
(`Fs.lookupsAgree`).
-/

namespace StagedSandbox.Fs

/-! ### Changes on texts -/

variable {text : String}

theorem Shows.eq_of_error {ε : Type} {change : EStateM ε Fs Unit}
    {flat : FlatMap → Except ε FlatMap} (h : Shows change flat) {fs fs' : Fs} {e : ε}
    (hrun : change fs = .error e fs') : fs' = fs := by
  refine Action.eq_of_error ?_ hrun
  have hfs := h fs
  split at hfs
  · exact Or.inl ⟨_, hfs⟩
  · obtain ⟨left, hok, -⟩ := hfs
    exact Or.inr ⟨_, left, hok⟩

theorem Shows.changeAt {change : Path → Change Unit}
    {flat : FlatMap → Path → Except Obstacle FlatMap}
    (h : ∀ path : Path, path.Named → Shows (change path) (flat · path)) :
    Shows (changeAt text change) (·.query text flat) := by
  intro fs
  dsimp only
  rw [Fs.changeAt, FlatMap.query, atText, EStateM.adaptExcept]
  cases hparse : Path.parse? text with
  | none => rfl
  | some path =>
    have hpath := h path (Path.named_of_parse? hparse) fs
    dsimp only at hpath ⊢
    cases hflat : flat fs.view path with
    | error e =>
      rw [hflat] at hpath
      dsimp only [Except.mapError] at hpath ⊢
      rw [hpath]
    | ok m =>
      rw [hflat] at hpath
      obtain ⟨fs', hrun, hview⟩ := hpath
      dsimp only [Except.mapError]
      rw [hrun]
      exact ⟨fs', rfl, hview⟩

/-- A change that succeeds shows, and keeps a file system well-formed. -/
theorem Shows.of_ok {ε : Type} {change : EStateM ε Fs Unit} {flat : FlatMap → Except ε FlatMap}
    (h : Shows change flat) {fs fs' : Fs} (hrun : change fs = .ok () fs') :
    flat fs.view = .ok fs'.view ∧ (fs.WellFormed → fs'.WellFormed) := by
  have hfs := h fs
  cases hflat : flat fs.view with
  | error e =>
    rw [hflat] at hfs
    simp [hfs] at hrun
  | ok m =>
    rw [hflat] at hfs
    obtain ⟨left, hleft, rfl, hkeeps⟩ := hfs
    rw [hleft] at hrun
    cases hrun
    exact ⟨rfl, hkeeps⟩

/-- Files stay where they are while directories are made. -/
theorem file_of_makeDirs {fs fs' : Fs} (hrun : changeAt text makeDirs fs = .ok () fs')
    {path : Path} {content : Bytes} (hfile : fs.view path = some (.file content)) :
    fs'.view path = some (.file content) := by
  have hview := ((Shows.changeAt fun _ => shows_makeDirs).of_ok hrun).1
  obtain ⟨dir, -, hmade⟩ := FlatMap.exists_of_query hview
  rw [FlatMap.makeDirs] at hmade
  split at hmade
  · cases hmade
  · next hbarred =>
    have hclear := clear_iff_not_barred.2 (Bool.eq_false_iff.2 hbarred)
    rw [← Except.ok.inj hmade]
    dsimp only
    rw [if_neg fun habove => hclear path habove content hfile, hfile]

/-- A file that was written is seen at its path, and nowhere else is a change. -/
theorem view_of_write {data : Bytes} {fs fs' : Fs}
    (hrun : changeAt text (write · data .overwrite) fs = .ok () fs') :
    ∃ path, Path.parse? text = some path ∧
      fs'.view = Function.update fs.view path (some (.file data)) := by
  have hview := ((Shows.changeAt fun _ hnamed => shows_write hnamed data .overwrite).of_ok hrun).1
  obtain ⟨path, hparse, hwritten⟩ := FlatMap.exists_of_query hview
  obtain ⟨new, hnew, hupdate⟩ := FlatMap.eq_of_replace hwritten
  refine ⟨path, hparse, ?_⟩
  have hsized : FlatMap.sized data = .ok new := by
    cases hfound : fs.view path with
    | none => simpa only [hfound] using hnew
    | some stands =>
      cases stands with
      | file old => simpa only [hfound] using hnew
      | dir => simp [hfound] at hnew
  rw [FlatMap.sized] at hsized
  split at hsized
  · cases hsized
    exact hupdate
  · cases hsized

theorem run_checkSize (size : Nat) (fs : Fs) :
    checkSize size fs = if size ≤ maxFileSize then .ok () fs else .error .tooLarge fs := by
  rw [checkSize, Action.run_ite]
  rfl

theorem run_atText_checkSize (text : String) (size : Nat) (fs : Fs) :
    atText text (checkSize size) fs =
      if size ≤ maxFileSize then .ok () fs else .error ⟨.tooLarge, text⟩ fs := by
  rw [atText, EStateM.adaptExcept, run_checkSize]
  by_cases hsize : size ≤ maxFileSize
  · rw [if_pos hsize, if_pos hsize]
  · rw [if_neg hsize, if_neg hsize]

/-- A size that no file may have is refused before the text is read. -/
theorem Shows.checkSize {change : EStateM FsError Fs Unit} {flat : FlatMap → Except FsError FlatMap}
    (h : Shows change flat) (size : Nat) :
    Shows (do atText text (checkSize size); change) fun m =>
      if size ≤ maxFileSize then flat m else .error ⟨.tooLarge, text⟩ := by
  intro fs
  have hrun := run_atText_checkSize text size fs
  dsimp only
  by_cases hsize : size ≤ maxFileSize
  · rw [if_pos hsize] at hrun ⊢
    rw [Action.run_bind_of_ok hrun]
    exact h fs
  · rw [if_neg hsize] at hrun ⊢
    exact Action.run_bind_of_error hrun _

/-! ### Operations -/

/-- An operation that changes a file system, with its arguments. -/
inductive Operation where
  | makeDirs (path : String)
  | makeDir (path : String)
  | write (path : String) (data : Bytes) (mode : WriteMode)
  | writeAt (path : String) (start : Nat) (data : Bytes)
  | truncate (path : String) (size : Nat)
  | removeFile (path : String)
  | removeDir (path : String)
  | move (source goal : String)

namespace Operation

/-- Perform an operation. -/
def run : Operation → EStateM FsError Fs Unit
  | .makeDirs path => changeAt path Fs.makeDirs
  | .makeDir path => changeAt path Fs.makeDir
  | .write path data mode => changeAt path (Fs.write · data mode)
  | .writeAt path start data => writeAtText path start data
  | .truncate path size => truncateText path size
  | .removeFile path => changeAt path Fs.removeFile
  | .removeDir path => changeAt path Fs.removeDir
  | .move source goal => moveText source goal

/-- What an operation makes of a flat map, or why it is refused. -/
noncomputable def onMap : Operation → FlatMap → Except FsError FlatMap
  | .makeDirs path, m => m.query path FlatMap.makeDirs
  | .makeDir path, m => m.query path FlatMap.makeDir
  | .write path data mode, m => m.query path (·.write · data mode)
  | .writeAt path start data, m =>
    if start + data.size ≤ maxFileSize then
      m.query path (·.edit · (FlatMap.overlaid · start data.list))
    else .error ⟨.tooLarge, path⟩
  | .truncate path size, m =>
    if size ≤ maxFileSize then m.query path (·.edit · (FlatMap.resized · size))
    else .error ⟨.tooLarge, path⟩
  | .removeFile path, m => m.query path FlatMap.removeFile
  | .removeDir path, m => m.query path FlatMap.removeDir
  | .move source goal, m =>
    match Path.parse? source, Path.parse? goal with
    | none, _ => .error ⟨.invalidPath, source⟩
    | _, none => .error ⟨.invalidPath, goal⟩
    | some source, some goal => m.move source goal

/-- What an operation does to a file system is what it does to the view. -/
theorem shows (op : Operation) : Shows op.run op.onMap := by
  cases op with
  | makeDirs path => exact Shows.changeAt fun _ => shows_makeDirs
  | makeDir path => exact Shows.changeAt fun _ => shows_makeDir
  | write path data mode => exact Shows.changeAt fun _ h => shows_write h data mode
  | writeAt path start data =>
    refine Shows.checkSize (Shows.changeAt fun _ h => ?_) _
    exact shows_edit h fun old => overlay_eq_overlaid old data start
  | truncate path size =>
    refine Shows.checkSize (Shows.changeAt fun _ h => ?_) _
    exact shows_edit h fun old => resize_eq_resized old size
  | removeFile path => exact Shows.changeAt fun _ => shows_removeFile
  | removeDir path => exact Shows.changeAt fun _ => shows_removeDir
  | move source goal =>
    intro fs
    simp only [run, onMap, moveText]
    cases hsource : Path.parse? source with
    | none => rfl
    | some from' =>
      cases hgoal : Path.parse? goal with
      | none => rfl
      | some to' =>
        exact shows_move (Path.named_of_parse? hsource) (Path.named_of_parse? hgoal) fs

/-- An operation that is refused leaves the whole file system as it was. -/
theorem eq_of_refused (op : Operation) {fs fs' : Fs} {e : FsError}
    (h : op.run fs = .error e fs') : fs' = fs :=
  op.shows.eq_of_error h

/-- No directory is made on the way through a file, and nothing is lost on the way to a goal that
is taken. -/
theorem eq_of_refused_taken :
    let fs : Fs := [("a", .file ⟨#[1]⟩), ("d", .dir [("b", .dir [])])]
    (∃ e fs', (Operation.makeDirs "/d/new/../../a/new").run fs = .error e fs' ∧ fs' = fs) ∧
      ∃ e fs', (Operation.move "/d/b" "/a").run fs = .error e fs' ∧ fs' = fs := by
  intro fs
  have hmake : (Operation.makeDirs "/d/new/../../a/new").run fs =
      .error ⟨.notDirectory, "/d/new/../../a/new"⟩ fs := rfl
  have hmove : (Operation.move "/d/b" "/a").run fs = .error ⟨.notDirectory, "/a"⟩ fs := rfl
  exact ⟨⟨_, _, hmake, eq_of_refused _ hmake⟩, ⟨_, _, hmove, eq_of_refused _ hmove⟩⟩

end Operation

/-! ### Reading and changing find the same file -/

/-- Below the root, the file that is edited is the one that is read. -/
theorem edit_view {fs : Fs} {path : Path} (hne : path ≠ [])
    (change : List UInt8 → List UInt8) :
    FlatMap.edit fs.view path change =
      (fs.read path).map fun old =>
        Function.update fs.view path (some (.file (Bytes.ofList (change old.list)))) := by
  rw [FlatMap.edit, FlatMap.replace, reach_view, read, find_eq_reach hne]
  cases fs.reach path with
  | error e => rfl
  | ok found =>
    cases found with
    | none => rfl
    | some node => cases node <;> rfl

/-- The file system holds a content at the path that a text denotes, and has it replaced. -/
def Replaces (fs : Fs) (text : String) (op : Operation) (content : Bytes) : Prop :=
  ∃ path fs', Path.parse? text = some path ∧ op.run fs = .ok () fs' ∧
    fs'.view = Function.update fs.view path (some (.file content))

/-- Reading, laying bytes over and cutting find the same file, or are refused for one reason. -/
def LookupsAgree (fs : Fs) (text : String) : Prop :=
  match fs.query text read with
  | .ok content =>
    (∀ start length,
      fs.query text (·.readAt · start length) = .ok (content.slice start length)) ∧
    (∀ start (data : Bytes), start + data.size ≤ maxFileSize →
      fs.Replaces text (.writeAt text start data)
        (Bytes.ofList (FlatMap.overlaid content.list start data.list))) ∧
    ∀ size, size ≤ maxFileSize →
      fs.Replaces text (.truncate text size) (Bytes.ofList (FlatMap.resized content.list size))
  | .error e =>
    (∀ start length, fs.query text (·.readAt · start length) = .error e) ∧
    (∀ start (data : Bytes), start + data.size ≤ maxFileSize →
      (Operation.writeAt text start data).run fs = .error e fs) ∧
    ∀ size, size ≤ maxFileSize → (Operation.truncate text size).run fs = .error e fs

theorem query_readAt (fs : Fs) (text : String) (start length : Nat) :
    fs.query text (·.readAt · start length) =
      (fs.query text read).map (·.slice start length) := by
  rw [query, query]
  cases Path.parse? text with
  | none => rfl
  | some path =>
    dsimp only
    rw [readAt]
    cases fs.read path <;> rfl

/-- An operation that edits a file edits the one that is read. -/
theorem replaces_of_edits (fs : Fs) {text : String} (op : Operation)
    {change : List UInt8 → List UInt8} (hroot : Path.parse? text ≠ some [])
    (hop : op.onMap fs.view = FlatMap.query fs.view text (·.edit · change)) :
    match fs.query text read with
    | .ok content => fs.Replaces text op (Bytes.ofList (change content.list))
    | .error e => op.run fs = .error e fs := by
  have hshows := op.shows fs
  rw [hop, FlatMap.query] at hshows
  rw [query]
  cases hparse : Path.parse? text with
  | none =>
    rw [hparse] at hshows
    exact hshows
  | some path =>
    have hne : path ≠ [] := by
      rintro rfl
      exact hroot hparse
    rw [hparse] at hshows
    dsimp only at hshows ⊢
    rw [edit_view hne] at hshows
    cases hread : fs.read path with
    | error e =>
      rw [hread] at hshows
      exact hshows
    | ok content =>
      rw [hread] at hshows
      obtain ⟨fs', hrun, hview, -⟩ := hshows
      exact ⟨path, fs', hparse, hrun, hview⟩

theorem lookupsAgree (fs : Fs) {text : String} (hroot : Path.parse? text ≠ some []) :
    fs.LookupsAgree text := by
  have hwriteAt (start : Nat) (data : Bytes) (hsize : start + data.size ≤ maxFileSize) :=
    fs.replaces_of_edits (.writeAt text start data) hroot (if_pos hsize)
  have htruncate (size : Nat) (hsize : size ≤ maxFileSize) :=
    fs.replaces_of_edits (.truncate text size) hroot (if_pos hsize)
  have hreadAt (start length : Nat) := fs.query_readAt text start length
  rw [LookupsAgree]
  cases hread : fs.query text read with
  | error e =>
    rw [hread] at hwriteAt htruncate hreadAt
    exact ⟨hreadAt, hwriteAt, htruncate⟩
  | ok content =>
    rw [hread] at hwriteAt htruncate hreadAt
    exact ⟨hreadAt, hwriteAt, htruncate⟩

end StagedSandbox.Fs
