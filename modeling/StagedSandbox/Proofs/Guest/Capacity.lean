import StagedSandbox.Proofs.Fs.Operation
import StagedSandbox.Proofs.Guest.Seeking

/-!
# The largest size of a file

If no file is longer than `Fs.maxFileSize`, no operation and no program makes one longer. The limit
is exact: an operation by which a file has to reach a size (`Fs.Operation.demand`) is refused as too
large just if the size is beyond the limit, and then nothing has changed (`Guest.capacity_exact`).
-/

namespace StagedSandbox.Fs

open StagedSandbox.Action

variable {limit size : Nat} {fs : Fs} {text : String} {path : Path} {old : Bytes} {op : Operation}

/-! ### Every operation keeps the limit -/

theorem limited_makeDirs (path : Path) : Change.Limited limit (makeDirs path) := by
  intro fs hfs
  rw [left]
  by_cases hbarred : FlatMap.barred fs.view path = true
  · rw [makeDirs_of_barred hbarred]
    exact hfs
  · have hclear := clear_iff_not_barred.mpr (Bool.eq_false_iff.mpr hbarred)
    obtain ⟨fs', hrun, hextended⟩ := makeDirs_of_clear hclear
    rw [hrun]
    intro other content hcontent
    rw [← view_eq_file_iff, hextended.view] at hcontent
    split at hcontent
    · cases hcontent
    · exact hfs other content (view_eq_file_iff.mp hcontent)

/-- What an error speaks of makes no difference to the file system. -/
theorem left_atText {α : Type} (text : String) (change : Change α) (fs : Fs) :
    left (atText text change) fs = left change fs := by
  rw [left, left, atText, EStateM.adaptExcept]
  cases change fs <;> rfl

theorem limited_changeAt {change : Path → Change Unit}
    (h : ∀ path, Change.Limited limit (change path)) (text : String) :
    Change.Limited limit (changeAt text change) := by
  intro fs hfs
  rw [changeAt, left_atText]
  cases Path.parse? text with
  | none => exact hfs
  | some path => exact h path fs hfs

/-- It makes no difference to the file system whether a size is checked before the text is read or
after. -/
theorem left_checkSize_changeAt (text : String) (size : Nat) (change : Path → Change Unit)
    (fs : Fs) :
    left (do atText text (checkSize size); changeAt text change) fs =
      left (changeAt text fun path => do checkSize size; change path) fs := by
  have htext := run_atText_checkSize text size fs
  have hpath := run_checkSize size fs
  rw [changeAt, changeAt, left_atText]
  by_cases hsize : size ≤ maxFileSize
  · rw [if_pos hsize] at htext hpath
    rw [left_bind_of_ok htext, left_atText]
    cases Path.parse? text with
    | none => rfl
    | some path =>
      dsimp only
      rw [left_bind_of_ok hpath]
  · rw [if_neg hsize] at htext hpath
    rw [left_bind_of_error htext]
    cases Path.parse? text with
    | none => rfl
    | some path =>
      dsimp only
      rw [left_bind_of_error hpath]

/-- An operation keeps every limit that is not below the largest size. -/
theorem Operation.limited (hmax : maxFileSize ≤ limit) (op : Operation) :
    Change.Limited limit op.run := by
  cases op with
  | makeDirs text => exact limited_changeAt limited_makeDirs text
  | makeDir text => exact limited_changeAt limited_makeDir text
  | write text data mode =>
    exact limited_changeAt (fun path => limited_write hmax path data mode) text
  | writeAt text start data =>
    intro fs hfs
    rw [run, writeAtText, left_checkSize_changeAt]
    exact limited_changeAt (fun path => limited_writeAt hmax path start data) text fs hfs
  | truncate text size =>
    intro fs hfs
    rw [run, truncateText, left_checkSize_changeAt]
    exact limited_changeAt (fun path => limited_truncate hmax path size) text fs hfs
  | removeFile text => exact limited_changeAt limited_removeFile text
  | removeDir text => exact limited_changeAt limited_removeDir text
  | move source goal =>
    intro fs hfs
    rw [run, moveText]
    cases Path.parse? source with
    | none => exact hfs
    | some source =>
      cases Path.parse? goal with
      | none => exact hfs
      | some goal => exact limited_move source goal fs hfs

/-! ### The size that a file has to reach -/

/-- The text that names the file, and the size that the file has to reach for an operation if it
holds so many bytes. -/
def Operation.demand (held : Nat) : Operation → Option (String × Nat)
  | .write text data .overwrite => some (text, data.size)
  | .write text data .append => some (text, held + data.size)
  | .writeAt text start data => some (text, start + data.size)
  | .truncate text size => some (text, size)
  | .makeDirs _ | .makeDir _ | .removeFile _ | .removeDir _ | .move .. => none

/-- A file that stands at a path is what is decided about there. -/
theorem replace_view_of_file (hfile : fs.view path = some (.file old))
    (decision : Option Surface → Except Obstacle (Option Surface)) :
    FlatMap.replace fs.view path decision =
      (decision (some (.file old))).map (Function.update fs.view path) := by
  have hne : path ≠ [] := by
    rintro rfl
    cases hfile
  rw [FlatMap.replace, reach_view, reach_of_lookup hne (view_eq_file_iff.mp hfile)]
  rfl

theorem map_sized_mapError (m : FlatMap) (path : Path) (text : String) (content : Bytes) :
    ((FlatMap.sized content).map (Function.update m path)).mapError (FsError.mk · text) =
      if content.size ≤ maxFileSize then .ok (Function.update m path (some (.file content)))
      else .error ⟨.tooLarge, text⟩ := by
  rw [FlatMap.sized]
  by_cases hsize : content.size ≤ maxFileSize
  · rw [if_pos hsize, if_pos hsize]
    rfl
  · rw [if_neg hsize, if_neg hsize]
    rfl

/-- Whether a file may be of the size that it has to reach is all that an operation on it depends
on. -/
theorem Operation.onMap_of_demand (hparse : Path.parse? text = some path)
    (hfile : fs.view path = some (.file old)) (hdemand : op.demand old.size = some (text, size)) :
    ∃ new : Bytes, size ≤ new.size ∧
      op.onMap fs.view =
        if size ≤ maxFileSize then .ok (Function.update fs.view path (some (.file new)))
        else .error ⟨.tooLarge, text⟩ := by
  cases op with
  | write text' data mode =>
    cases mode with
    | overwrite =>
      obtain ⟨rfl, rfl⟩ := Prod.mk.inj (Option.some.inj hdemand)
      refine ⟨data, Nat.le_refl _, ?_⟩
      rw [onMap, FlatMap.query_of_parse hparse, FlatMap.write, replace_view_of_file hfile,
        map_sized_mapError]
    | append =>
      obtain ⟨rfl, rfl⟩ := Prod.mk.inj (Option.some.inj hdemand)
      have hsize : (old ++ data).size = old.size + data.size := ByteArray.size_append
      refine ⟨old ++ data, Nat.le_of_eq hsize.symm, ?_⟩
      rw [onMap, FlatMap.query_of_parse hparse, FlatMap.write, replace_view_of_file hfile,
        map_sized_mapError, hsize]
  | writeAt text' start data =>
    obtain ⟨rfl, rfl⟩ := Prod.mk.inj (Option.some.inj hdemand)
    refine ⟨old.overlay start data, ?_, ?_⟩
    · rw [Bytes.size_overlay]
      exact Nat.le_max_right _ _
    · rw [onMap, FlatMap.query_of_parse hparse, FlatMap.edit, replace_view_of_file hfile,
        overlay_eq_overlaid]
      rfl
  | truncate text' size' =>
    obtain ⟨rfl, rfl⟩ := Prod.mk.inj (Option.some.inj hdemand)
    refine ⟨old.resize size', ?_, ?_⟩
    · rw [Bytes.size_resize]
    · rw [onMap, FlatMap.query_of_parse hparse, FlatMap.edit, replace_view_of_file hfile,
        resize_eq_resized]
      rfl
  | makeDirs | makeDir | removeFile | removeDir | move => cases hdemand

/-- An operation by which a file has to reach a size is refused as too large just if no file may
be of that size, and then the file system is as it was. If it is not refused, the file reaches the
size. -/
structure Operation.Exact (op : Operation) (fs : Fs) (text : String) (size : Nat) : Prop where
  refused_iff : (∃ blamed fs', op.run fs = .error ⟨.tooLarge, blamed⟩ fs') ↔ maxFileSize < size
  unchanged : maxFileSize < size → op.run fs = .error ⟨.tooLarge, text⟩ fs
  reached : size ≤ maxFileSize → ∃ new, fs.Replaces text op new ∧ size ≤ new.size

theorem Operation.exact_of_demand (hparse : Path.parse? text = some path)
    (hfile : fs.view path = some (.file old)) (hdemand : op.demand old.size = some (text, size)) :
    op.Exact fs text size := by
  obtain ⟨new, hsize, hmap⟩ := onMap_of_demand hparse hfile hdemand
  have hshows := op.shows fs
  rw [hmap] at hshows
  by_cases hmax : size ≤ maxFileSize
  · rw [if_pos hmax] at hshows
    obtain ⟨fs', hrun, hview, -⟩ := hshows
    refine ⟨iff_of_false ?_ (Nat.not_lt.mpr hmax), fun hlt => absurd hmax (Nat.not_le.mpr hlt), ?_⟩
    · rintro ⟨blamed, left, herror⟩
      rw [hrun] at herror
      cases herror
    · intro _
      exact ⟨new, ⟨path, fs', hparse, hrun, hview⟩, hsize⟩
  · rw [if_neg hmax] at hshows
    have hlt := Nat.not_le.mp hmax
    exact ⟨iff_of_true ⟨text, fs, hshows⟩ hlt, fun _ => hshows, fun hle => absurd hle hmax⟩

end StagedSandbox.Fs

namespace StagedSandbox.Guest

/-- If all files are within the largest size, they still are after any operation and after any
calls of a program. The limit is exact: an operation on a file is refused as too large just if the
file would have to reach a size beyond it, and then nothing has changed. -/
theorem capacity_exact {fs : Fs} (hfs : fs.FilesWithin Fs.maxFileSize) :
    (∀ op : Fs.Operation, (Action.left op.run fs).FilesWithin Fs.maxFileSize) ∧
    (∀ (op : Fs.Operation) text path old size, Path.parse? text = some path →
      fs.view path = some (.file old) → op.demand old.size = some (text, size) →
      op.Exact fs text size) ∧
    ∀ console arguments environment preopens entropy calls,
      ((start fs console arguments environment preopens entropy).run calls).2.fs.FilesWithin
        Fs.maxFileSize := by
  refine ⟨fun op => ?_, fun op text path old size => Fs.Operation.exact_of_demand, ?_⟩
  · exact op.limited (Nat.le_refl _) fs hfs
  · intro console arguments environment preopens entropy calls
    have hstart := measured_start (Nat.le_refl _) (by decide) hfs console arguments environment
      preopens entropy
    exact (hstart.run calls).files

/-- A file that is full, a position at which a word of 64 bits would wrap around, and a program that
writes behind the end of a full file. -/
theorem capacity_exact_full :
    let fs : Fs := [("log", .file ⟨#[97, 98, 99]⟩)]
    let full := ((start fs {} [] [] [Preopen.root] .zeros).run
      [.openPath 3 "log" { write := true }, .truncate 4 Fs.maxFileSize, .seek 4 0 .fromEnd,
        .write 4 ⟨#[100]⟩]).2.fs
    fs.FilesWithin Fs.maxFileSize ∧
      (Action.left (Fs.Operation.move "/log" "/old").run fs).FilesWithin Fs.maxFileSize ∧
      (Fs.Operation.writeAt "/log" (2 ^ 64 - 1) ⟨#[100]⟩).run fs =
        .error ⟨.tooLarge, "/log"⟩ fs ∧
      (Fs.Operation.truncate "//log" (Fs.maxFileSize + 1)).run fs =
        .error ⟨.tooLarge, "//log"⟩ fs ∧
      (∃ new, fs.Replaces "/log" (.truncate "/log" Fs.maxFileSize) new ∧
        Fs.maxFileSize ≤ new.size) ∧
      full.FilesWithin Fs.maxFileSize := by
  intro fs full
  have hempty : Fs.FilesWithin Fs.maxFileSize [] := by
    rintro (_ | ⟨name, _ | ⟨next, rest⟩⟩) content hcontent <;> cases hcontent
  have hfs : fs.FilesWithin Fs.maxFileSize :=
    (Fs.Operation.write "/log" ⟨#[97, 98, 99]⟩ .overwrite).limited (Nat.le_refl _) [] hempty
  obtain ⟨hkeeps, hexact, hprogram⟩ := capacity_exact hfs
  have hfile : fs.view ["log"] = some (.file ⟨#[97, 98, 99]⟩) := rfl
  refine ⟨hfs, hkeeps _, ?_, ?_, ?_, hprogram _ _ _ _ _ _⟩
  · exact (hexact _ "/log" ["log"] _ _ (by decide) hfile rfl).unchanged (by decide)
  · exact (hexact _ "//log" ["log"] _ _ (by decide) hfile rfl).unchanged (by decide)
  · exact (hexact _ "/log" ["log"] _ _ (by decide) hfile rfl).reached (Nat.le_refl _)

end StagedSandbox.Guest
