import StagedSandbox.Playground.Basic
import StagedSandbox.Proofs.Action
import StagedSandbox.Proofs.Fs.Change

/-!
# Seeding

A seed that is written stands where it was to stand, and only what lies under its first name can
have changed.
-/

namespace StagedSandbox

open StagedSandbox.Action

namespace Fs

variable {fs fs' : Fs}

/-- What lies under a name depends on the node of that name alone. -/
theorem view_cons_congr {name : String} (h : fs'.get? name = fs.get? name) (rest : Path) :
    fs'.view (name :: rest) = fs.view (name :: rest) := by
  rw [view, view, lookup_cons_eq_bind, lookup_cons_eq_bind, h]

/-- Making directories changes the first of their names alone. -/
theorem get?_makeDirs {name : String} {rest : Path} {a : Unit}
    (h : makeDirs (name :: rest) fs = .ok a fs') {other : String} (hother : other ≠ name) :
    fs'.get? other = fs.get? other := by
  cases hget : fs.get? name with
  | none =>
    cases hmade : makeDirs rest [] with
    | error e left => simp only [makeDirs, hget, hmade] at h; cases h
    | ok b left =>
      simp only [makeDirs, hget, hmade] at h
      cases h
      exact Table.get?_insert_of_ne _ _ hother
  | some node =>
    cases node with
    | file content => simp only [makeDirs, hget] at h; cases h
    | dir children =>
      cases hmade : makeDirs rest children with
      | error e left => simp only [makeDirs, hget, hmade] at h; cases h
      | ok b left =>
        simp only [makeDirs, hget, hmade] at h
        cases h
        exact Table.get?_set_of_ne _ _ hother

theorem view_makeDirs {name : String} {above : Path} {a : Unit} (h : makeDirs above fs = .ok a fs')
    (habove : above = [] ∨ ∃ rest, above = name :: rest) {path : Path}
    (hpath : ¬ [name] <+: path) : fs'.view path = fs.view path := by
  obtain rfl | ⟨rest, rfl⟩ := habove
  · cases h
    rfl
  · cases path with
    | nil => rfl
    | cons first more =>
      have hne : first ≠ name := fun heq => hpath (by simp [heq])
      exact view_cons_congr (get?_makeDirs h hne) more

/-- A file that was written stands at its path and is not too large. -/
theorem write_eq_ok {path : Path} {data : Bytes} {a : Unit}
    (h : write path data .overwrite fs = .ok a fs') :
    data.size ≤ maxFileSize ∧ fs.Replaced path (some (.file data)) fs' := by
  have hfollows := follows_write path data .overwrite fs
  -- A file of any content and nothing at all are decided alike.
  have hsized : ∀ found, (∀ children, found ≠ some (.dir children)) →
      Decide.write data .overwrite found = Decide.sized data := by
    intro found hfound
    match found with
    | none => rfl
    | some (.file old) => rfl
    | some (.dir children) => exact absurd rfl (hfound children)
  cases hreach : fs.reach path with
  | error e =>
    simp only [hreach, Except.bind] at hfollows
    rw [hfollows] at h
    cases h
  | ok found =>
    by_cases hfound : ∃ children, found = some (.dir children)
    · obtain ⟨children, rfl⟩ := hfound
      simp only [hreach, Except.bind, Decide.write] at hfollows
      rw [hfollows] at h
      cases h
    · have hdecide := hsized found fun children heq => hfound ⟨children, heq⟩
      by_cases hsize : data.size ≤ maxFileSize
      · simp only [hreach, Except.bind, hdecide, Decide.sized, hsize, if_true] at hfollows
        obtain ⟨left, hrun, hleft⟩ := hfollows
        rw [hrun] at h
        cases h
        exact ⟨hsize, hleft⟩
      · simp only [hreach, Except.bind, hdecide, Decide.sized, hsize, if_false] at hfollows
        rw [hfollows] at h
        cases h

end Fs

namespace Playground

/-! ### Seeds -/

theorem changeAt_eq_ok {α : Type} {text : String} {path : Path} {change : Path → Fs.Change α}
    {a : α} {fs fs' : Fs} (hpath : Path.parse? text = some path)
    (h : Fs.changeAt text change fs = .ok a fs') : change path fs = .ok a fs' := by
  simp only [Fs.changeAt, Fs.atText, hpath, EStateM.adaptExcept] at h
  split at h
  · cases h
  · next hrun =>
    cases h
    exact hrun

theorem changeAt_of_eq_ok {α : Type} {text : String} {path : Path} (change : Path → Fs.Change α)
    {a : α} {fs fs' : Fs} (hpath : Path.parse? text = some path)
    (h : change path fs = .ok a fs') : Fs.changeAt text change fs = .ok a fs' := by
  simp only [Fs.changeAt, Fs.atText, hpath, EStateM.adaptExcept, h]

/-- A seed is written where its directories can be made and the file can be written. -/
theorem writeSeed_of_eq_ok {text parent : String} {above path : Path} {data : Bytes}
    {fs made fs' : Fs} (hparent : Path.parentText? text = some parent)
    (habove : Path.parse? parent = some above) (hpath : Path.parse? text = some path)
    (hmade : Fs.makeDirs above fs = .ok () made)
    (hwrite : Fs.write path data .overwrite made = .ok () fs') :
    writeSeed text data fs = .ok () fs' := by
  simp only [writeSeed, hparent]
  rw [run_bind_of_ok (changeAt_of_eq_ok Fs.makeDirs habove hmade)]
  exact changeAt_of_eq_ok (Fs.write · data .overwrite) hpath hwrite

/-- A seed that was written stands at its path, is not too large, and changes nothing but what lies
under its first name. -/
theorem writeSeed_eq_ok {text parent name : String} {above rest : Path} {data : Bytes}
    {fs fs' : Fs} (hparent : Path.parentText? text = some parent)
    (habove : Path.parse? parent = some above) (hpath : Path.parse? text = some (name :: rest))
    (hname : above = [] ∨ ∃ more, above = name :: more)
    (h : writeSeed text data fs = .ok () fs') :
    data.size ≤ Fs.maxFileSize ∧ fs'.lookup (name :: rest) = some (.file data) ∧
      ∀ path, ¬ [name] <+: path → fs'.view path = fs.view path := by
  simp only [writeSeed, hparent] at h
  cases hmade : Fs.changeAt parent Fs.makeDirs fs with
  | error e left =>
    rw [run_bind_of_error hmade] at h
    cases h
  | ok a made =>
    rw [run_bind_of_ok hmade] at h
    obtain ⟨hsize, hwrite⟩ := Fs.write_eq_ok (changeAt_eq_ok hpath h)
    refine ⟨hsize, hwrite.here, fun path hbeside => ?_⟩
    have hthrough : ¬ name :: rest <+: path := fun hunder =>
      hbeside (List.IsPrefix.trans (by simp) hunder)
    rw [hwrite.beside path hthrough, Fs.view_makeDirs (changeAt_eq_ok habove hmade) hname hbeside]

theorem writeSeeds_default (host : Host) (template : Fs) (source : String) :
    ({ host, template } : Playground).writeSeeds source = (do
      writeSeed "/code.cr" (Bytes.ofText source)
      writeSeed "/dev/zero" ByteArray.empty) := by
  simp [writeSeeds]

/-- On a seeded file system the source stands at its path, and all that lies under other names than
those of the seeds is what the template shows. -/
theorem seeded_default {host : Host} {template fs : Fs} {source : String}
    (h : ({ host, template } : Playground).seeded source = .ok fs) :
    (Bytes.ofText source).size ≤ Fs.maxFileSize ∧
      fs.lookup ["code.cr"] = some (.file (Bytes.ofText source)) ∧
      ∀ path, ¬ ["code.cr"] <+: path → ¬ ["dev"] <+: path → fs.view path = template.view path := by
  rw [seeded, outcome, writeSeeds_default] at h
  cases hsource : writeSeed "/code.cr" (Bytes.ofText source) template with
  | error e left =>
    rw [run_bind_of_error hsource] at h
    cases h
  | ok _ made =>
    rw [run_bind_of_ok hsource] at h
    cases hzero : writeSeed "/dev/zero" ByteArray.empty made with
    | error e left =>
      rw [hzero] at h
      cases h
    | ok _ left =>
      rw [hzero] at h
      obtain rfl := Except.ok.inj h
      obtain ⟨hsize, hfile, hbeside⟩ :=
        writeSeed_eq_ok (show Path.parentText? "/code.cr" = some "/" by decide)
          (show Path.parse? "/" = some [] by decide)
          (show Path.parse? "/code.cr" = some ["code.cr"] by decide) (.inl rfl) hsource
      obtain ⟨-, -, hbeside'⟩ :=
        writeSeed_eq_ok (show Path.parentText? "/dev/zero" = some "/dev" by decide)
          (show Path.parse? "/dev" = some ["dev"] by decide)
          (show Path.parse? "/dev/zero" = some ["dev", "zero"] by decide) (.inr ⟨[], rfl⟩) hzero
      refine ⟨hsize, ?_, fun path hcode hdev => ?_⟩
      · rw [← Fs.view_eq_file_iff, hbeside' _ (by decide), Fs.view_eq_file_iff]
        exact hfile
      · rw [hbeside' path hdev, hbeside path hcode]

end Playground

end StagedSandbox
