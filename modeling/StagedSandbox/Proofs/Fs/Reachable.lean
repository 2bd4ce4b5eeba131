import StagedSandbox.Proofs.Fs.Operation
import StagedSandbox.Proofs.Snapshot.Load

/-!
# File systems that can be reached

The file systems that arise from nothing or from any snapshot by operations. Each is a flat map in
disguise: its view answers every question and tells what every operation does to it
(`Fs.Reachable.answers_and_shows`).
-/

namespace StagedSandbox.Fs

/-- The file systems that arise from nothing or from a snapshot by operations, refused ones
included. -/
inductive Reachable : Fs → Prop
  | new : Reachable []
  | load {s : Snapshot} {fs : Fs} (h : s.load = .ok fs) : Reachable fs
  | operation {fs : Fs} (h : Reachable fs) (op : Operation) : Reachable (Action.left op.run fs)

theorem Shows.wellFormed_left {ε : Type} {change : EStateM ε Fs Unit}
    {flat : FlatMap → Except ε FlatMap} (h : Shows change flat) {fs : Fs} (hwf : fs.WellFormed) :
    (Action.left change fs).WellFormed := by
  have hfs := h fs
  rw [Action.left]
  split at hfs
  · rwa [hfs]
  · obtain ⟨fs', hrun, -, hkeeps⟩ := hfs
    rw [hrun]
    exact hkeeps hwf

end StagedSandbox.Fs

namespace StagedSandbox.Snapshot

open Fs

theorem run_of_apply {path : String} {change : EStateM FsError Fs Unit} {fs fs' : Fs}
    (hrun : apply path change fs = .ok fs') : change fs = .ok () fs' := by
  rw [apply] at hrun
  split at hrun
  · next hchange => rw [hchange, Except.ok.inj hrun]
  · cases hrun

/-- What one entry of a snapshot adds is added to the view, and keeps a file system well-formed. -/
theorem shows_of_apply {path : String} {change : EStateM FsError Fs Unit}
    {flat : FlatMap → Except FsError FlatMap} (h : Shows change flat) {fs fs' : Fs}
    (hrun : apply path change fs = .ok fs') :
    flat fs.view = .ok fs'.view ∧ (fs.WellFormed → fs'.WellFormed) :=
  h.of_ok (run_of_apply hrun)

theorem wellFormed_of_loadDir {path : String} {fs fs' : Fs} (hwf : fs.WellFormed)
    (hrun : loadDir fs path = .ok fs') : fs'.WellFormed :=
  (shows_of_apply (Shows.changeAt fun _ => shows_makeDirs) hrun).2 hwf

/-- A file that can be unpacked lies in the blob; the directories it lies in are made, if it has
a parent, and it is placed in them. -/
theorem loadFile_cases {s : Snapshot} {path : String} {offset length : Nat} {fs fs' : Fs}
    (hrun : s.loadFile fs path offset length = .ok fs') :
    offset + length ≤ s.blob.size ∧ ∃ between,
      (between = fs ∨ ∃ parent, apply path (changeAt parent makeDirs) fs = .ok between) ∧
      apply path (changeAt path (place · (s.blob.slice offset length))) between = .ok fs' := by
  obtain ⟨stop, hrange, hstored⟩ := Action.exists_of_bind_eq_ok hrun
  rw [rangeEnd] at hrange
  split at hrange
  · next hblob =>
    refine ⟨hblob, ?_⟩
    cases hparent : Path.parentText? path with
    | none =>
      rw [hparent] at hstored
      exact ⟨fs, Or.inl rfl, hstored⟩
    | some parent =>
      rw [hparent] at hstored
      obtain ⟨between, hmade, hplaced⟩ := Action.exists_of_bind_eq_ok hstored
      exact ⟨between, Or.inr ⟨parent, hmade⟩, hplaced⟩
  · cases hrange

theorem wellFormed_of_loadFile {s : Snapshot} {path : String} {offset length : Nat} {fs fs' : Fs}
    (hwf : fs.WellFormed) (hrun : s.loadFile fs path offset length = .ok fs') :
    fs'.WellFormed := by
  obtain ⟨-, between, hbetween, hplaced⟩ := loadFile_cases hrun
  refine (shows_of_apply (Shows.changeAt fun _ hnamed => shows_place hnamed _) hplaced).2 ?_
  rcases hbetween with rfl | ⟨parent, hmade⟩
  · exact hwf
  · exact (shows_of_apply (Shows.changeAt fun _ => shows_makeDirs) hmade).2 hwf

/-- A fold keeps what each of its steps keeps. -/
theorem foldlM_keeps {α β ε : Type} {step : β → α → Except ε β} {inv : β → Prop} {list : List α}
    (hstep : ∀ a ∈ list, ∀ b b', inv b → step b a = .ok b' → inv b') {b b' : β} (h : inv b)
    (hrun : list.foldlM step b = .ok b') : inv b' := by
  induction list generalizing b with
  | nil => exact Except.ok.inj hrun ▸ h
  | cons first rest ih =>
    obtain ⟨hfirst, hrest⟩ := List.forall_mem_cons.1 hstep
    rw [List.foldlM_cons] at hrun
    obtain ⟨between, hbetween, hlater⟩ := Action.exists_of_bind_eq_ok hrun
    exact ih hrest (hfirst b between h hbetween) hlater

/-- Any snapshot that can be unpacked yields a well-formed file system. -/
theorem wellFormed_of_load {s : Snapshot} {fs : Fs} (h : s.load = .ok fs) : fs.WellFormed := by
  rw [load_eq] at h
  obtain ⟨dirs, hdirs, hfiles⟩ := Action.exists_of_bind_eq_ok h
  refine foldlM_keeps (fun entry _ fs fs' hwf hrun => ?_)
    (foldlM_keeps (fun entry _ fs fs' hwf hrun => ?_) Fs.WellFormed.empty hdirs) hfiles
  · rw [unpackFile] at hrun
    split at hrun
    · exact Except.ok.inj hrun ▸ hwf
    · exact wellFormed_of_loadFile hwf hrun
  · rw [unpackDir] at hrun
    split at hrun
    · exact wellFormed_of_loadDir hwf hrun
    · exact Except.ok.inj hrun ▸ hwf

end StagedSandbox.Snapshot

namespace StagedSandbox.Fs

theorem Reachable.wellFormed {fs : Fs} (h : fs.Reachable) : fs.WellFormed := by
  induction h with
  | new => exact WellFormed.empty
  | load h => exact Snapshot.wellFormed_of_load h
  | operation _ op ih => exact op.shows.wellFormed_left ih

/-- A file system that can be reached is a flat map: its view answers every question, tells what
each operation does, and reading and changing find the same file. -/
theorem Reachable.answers_and_shows {fs : Fs} (h : fs.Reachable) :
    fs.Answers fs.view ∧
    (∀ op : Operation,
      match op.onMap fs.view with
      | .error e => op.run fs = .error e fs
      | .ok m => ∃ fs', op.run fs = .ok () fs' ∧ fs'.view = m) ∧
    ∀ text, Path.parse? text ≠ some [] → fs.LookupsAgree text := by
  refine ⟨h.wellFormed.answers, fun op => ?_, fun text => fs.lookupsAgree⟩
  have hshows := op.shows fs
  cases hop : op.onMap fs.view with
  | error e =>
    rw [hop] at hshows
    exact hshows
  | ok m =>
    rw [hop] at hshows
    obtain ⟨fs', hrun, hview, -⟩ := hshows
    exact ⟨fs', hrun, hview⟩

/-- Bytes laid over a file beyond its end leave zeros between, however its path is spelled. -/
theorem Reachable.answers_and_shows_gap :
    let fs : Fs := [("a", .dir [("b", .file ⟨#[1]⟩)])]
    fs.Reachable ∧
      fs.query "/a//x/../b/" (·.readAt · 0 8) = .ok ⟨#[1]⟩ ∧
      (∃ fs', (Operation.writeAt "/./a/b" 3 ⟨#[2]⟩).run fs = .ok () fs' ∧
        fs'.view ["a", "b"] = some (.file ⟨#[1, 0, 0, 2]⟩) ∧ fs'.view ["a"] = some .dir) ∧
      fs.LookupsAgree "/a/b" := by
  intro fs
  have hreach : fs.Reachable :=
    (Reachable.new.operation (.makeDirs "/a")).operation (.write "/a/b" ⟨#[1]⟩ .overwrite)
  obtain ⟨hanswers, hshows, hagree⟩ := Reachable.answers_and_shows hreach
  obtain ⟨fs', hrun, hview⟩ := hshows (.writeAt "/./a/b" 3 ⟨#[2]⟩)
  refine ⟨hreach, hanswers.readAt _ 0 8, ⟨fs', hrun, ?_, ?_⟩, hagree _ (by decide)⟩
  · rw [hview]
    rfl
  · rw [hview]
    rfl

end StagedSandbox.Fs
