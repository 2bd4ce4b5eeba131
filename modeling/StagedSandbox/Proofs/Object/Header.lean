import StagedSandbox.Proofs.Object.Text

/-!
# The path in an object file

The path of the source is written as it is, so a path with line breaks stands in an object file as
several lines, and all but the first of them are read as lines of their own. The operations are
read back if and only if these lines are blank or comments (`ObjectFile.parse?_render_iff`).
-/

namespace StagedSandbox

namespace Text

/-! ### Lines of texts that hold line breaks -/

/-- Characters before the first separator belong to the first field. -/
theorem fields_append {separator : Char} {start : List Char} (h : separator ∉ start)
    (text : List Char) :
    ∃ first rest, fields separator text = first :: rest ∧
      fields separator (start ++ text) = (start ++ first) :: rest := by
  induction start with
  | nil =>
    obtain ⟨first, rest, hfields⟩ := List.exists_cons_of_ne_nil (fields_ne_nil separator text)
    exact ⟨first, rest, hfields, hfields⟩
  | cons c more ih =>
    obtain ⟨hc, hmore⟩ := not_or.1 (mt List.mem_cons.2 h)
    obtain ⟨first, rest, hfields, happend⟩ := ih hmore
    refine ⟨first, rest, hfields, ?_⟩
    rw [List.cons_append, fields_cons, happend, addToFields, if_neg fun e => hc e.symm]
    rfl

theorem fields_flatMap_break (list : List (List Char)) :
    fields '\n' (list.flatMap fun text => text ++ ['\n']) = list.flatMap (fields '\n') ++ [[]] := by
  induction list with
  | nil => rfl
  | cons text rest ih =>
    rw [List.flatMap_cons, List.append_assoc, List.singleton_append, fields_append_cons, ih,
      List.flatMap_cons, List.append_assoc]

/-- Texts that were ended by line breaks are read line by line. -/
theorem lines_flatMap_break (list : List (List Char)) :
    lines (list.flatMap fun text => text ++ ['\n']) =
      (list.flatMap (fields '\n')).map dropReturn := by
  rw [lines, fields_flatMap_break, linesOfFields_append_nil]

/-- A carriage return at the end is trimmed anyway. -/
theorem trim_dropReturn (line : List Char) : trim (dropReturn line) = trim line := by
  rw [dropReturn]
  split
  · next hlast =>
    obtain ⟨before, rfl⟩ : ∃ before, line = before ++ ['\r'] :=
      List.getLast?_eq_some_iff.1 hlast
    rw [List.dropLast_concat, trim, trim, trimRight, trimRight, List.dropWhile_append]
    split
    · next hblank => rw [List.isEmpty_iff.1 hblank]; rfl
    · rw [List.reverse_append, List.reverse_singleton, List.singleton_append,
        List.dropWhile_cons_of_pos (by decide)]
  · rfl

end Text

namespace ObjectFile

/-! ### Idle lines -/

/-- A line that adds nothing to an object file: it is blank, or a comment. -/
def IsIdle (text : List Char) : Prop := Text.trim text = [] ∨ ";;".toList <+: Text.trim text

instance (text : List Char) : Decidable (IsIdle text) := by unfold IsIdle; infer_instance

theorem readLines_idle {text : List Char} (h : IsIdle text) (number : Nat) (source : Option String)
    (before : List Op) (rest : List (List Char)) :
    ∃ source', readLines number source before (text :: rest) =
      readLines (number + 1) source' before rest := by
  rw [readLines]
  split
  · next path hpath => exact ⟨some (String.ofList path), rfl⟩
  · next hpath =>
    refine ⟨source, if_pos ?_⟩
    rwa [Bool.or_eq_true, List.isEmpty_iff, List.isPrefixOf_iff_prefix]

/-- A line that is not idle is read as an operation, or is a mistake. -/
theorem readLines_of_not_idle {text : List Char} (h : ¬ IsIdle text) (number : Nat)
    (source : Option String) (before : List Op) (rest : List (List Char)) :
    readLines number source before (text :: rest) =
      match Op.parse (Text.trim text) with
      | .ok op => readLines (number + 1) source (op :: before) rest
      | .error mistake => .error ⟨number, mistake⟩ := by
  have hstrip : Text.stripStart? sourceMark.toList (Text.trim text) = none := by
    rw [Text.stripStart?, if_neg]
    rw [List.isPrefixOf_iff_prefix]
    exact fun hstart => h (.inr ((show ";;".toList <+: sourceMark.toList by decide).trans hstart))
  have hskip : ¬((Text.trim text).isEmpty || ";;".toList.isPrefixOf (Text.trim text)) = true := by
    rwa [Bool.or_eq_true, List.isEmpty_iff, List.isPrefixOf_iff_prefix]
  rw [readLines, hstrip]
  exact if_neg hskip

/-! ### Reading several lines -/

theorem readLines_map_dropReturn (number : Nat) (source : Option String) (before : List Op)
    (lines : List (List Char)) :
    readLines number source before (lines.map Text.dropReturn) =
      readLines number source before lines := by
  induction lines generalizing number source before with
  | nil => rfl
  | cons text rest ih => simp only [List.map_cons, readLines, Text.trim_dropReturn, ih]

/-- The lines of operations add their operations to what the lines before them have left. -/
theorem readLines_append_render (number : Nat) (source : Option String) (before : List Op)
    (lines : List (List Char)) (ops : List Op) :
    readLines number source before (lines ++ ops.map Op.render) =
      (readLines number source before lines).map fun o => ⟨o.source, o.ops ++ ops⟩ := by
  induction lines generalizing number source before with
  | nil => exact readLines_render number source before ops
  | cons text rest ih =>
    rw [List.cons_append]
    by_cases hidle : IsIdle text
    · rw [readLines, readLines]
      cases Text.stripStart? sourceMark.toList (Text.trim text) with
      | some path => exact ih ..
      | none =>
        have hskip :
            ((Text.trim text).isEmpty || ";;".toList.isPrefixOf (Text.trim text)) = true := by
          rwa [Bool.or_eq_true, List.isEmpty_iff, List.isPrefixOf_iff_prefix]
        dsimp only
        rw [if_pos hskip, if_pos hskip]
        exact ih ..
    · rw [readLines_of_not_idle hidle, readLines_of_not_idle hidle]
      cases Op.parse (Text.trim text) with
      | ok op => exact ih ..
      | error mistake => rfl

/-- Lines that are read add operations to those read before them. -/
theorem ops_of_readLines {number : Nat} {source : Option String} {before : List Op}
    {lines : List (List Char)} {o : ObjectFile}
    (h : readLines number source before lines = .ok o) :
    ∃ added, o.ops = before.reverse ++ added ∧ (added = [] ↔ ∀ line ∈ lines, IsIdle line) := by
  induction lines generalizing number source before with
  | nil =>
    obtain rfl := Except.ok.inj h
    exact ⟨[], (List.append_nil _).symm, by simp⟩
  | cons text rest ih =>
    by_cases hidle : IsIdle text
    · obtain ⟨source', hread⟩ := readLines_idle hidle number source before rest
      rw [hread] at h
      obtain ⟨added, hops, hadded⟩ := ih h
      exact ⟨added, hops, by simp [hadded, hidle]⟩
    · rw [readLines_of_not_idle hidle] at h
      cases hparse : Op.parse (Text.trim text) with
      | error mistake => simp [hparse] at h
      | ok op =>
        rw [hparse] at h
        obtain ⟨added, hops, -⟩ := ih h
        refine ⟨op :: added, ?_, by simp [hidle]⟩
        rw [hops, List.reverse_cons, List.append_assoc, List.singleton_append]

theorem readLines_of_idle {lines : List (List Char)} (h : ∀ line ∈ lines, IsIdle line)
    (number : Nat) (source : Option String) (before : List Op) :
    ∃ source', readLines number source before lines = .ok ⟨source', before.reverse⟩ := by
  induction lines generalizing number source with
  | nil => exact ⟨source, rfl⟩
  | cons text rest ih =>
    obtain ⟨hfirst, hrest⟩ := List.forall_mem_cons.1 h
    obtain ⟨source', hread⟩ := readLines_idle hfirst number source before rest
    rw [hread]
    exact ih hrest (number + 1) source'

/-! ### Whole object files -/

/-- The lines of a path after its first one, which stand in an object file as lines of their
own. -/
def strayLines (path : String) : List (List Char) := (Text.fields '\n' path.toList).tail

/-- An object file is read as what the stray lines of its path say, and then its own
operations. -/
theorem parse?_render_source (path : String) (ops : List Op) :
    ∃ source, parse? (Bytes.ofText (render ⟨some path, ops⟩)) =
      some ((readLines 3 source [] (strayLines path)).map fun o => ⟨o.source, o.ops ++ ops⟩) := by
  obtain ⟨first, rest, hfields, hpath⟩ :=
    Text.fields_append (show '\n' ∉ sourceMark.toList by decide) path.toList
  have hops : (ops.map Op.render).flatMap (Text.fields '\n') = ops.map Op.render := by
    rw [List.flatMap_map]
    refine (List.flatMap_congr fun op _ => ?_).trans List.map_eq_flatMap.symm
    exact Text.fields_of_not_mem op.lineBreak_not_mem_render
  have hlines : Text.lines (render ⟨some path, ops⟩).toList =
      mark.toList :: ((sourceMark.toList ++ first) :: (strayLines path ++ ops.map Op.render)).map
        Text.dropReturn := by
    rw [render, String.toList_ofList, Text.lines_flatMap_break, renderLines]
    simp only [Option.toList_some, List.map_cons, List.map_nil, List.cons_append, List.nil_append,
      List.flatMap_cons, hops, hpath, strayLines, hfields, List.tail_cons]
    rfl
  obtain ⟨source, hread⟩ := readLines_comment 2 [] (" source ".toList ++ first)
    (strayLines path ++ ops.map Op.render)
  refine ⟨source, ?_⟩
  rw [parse?, Bytes.text?_ofText]
  simp only [hlines, if_true, readLines_map_dropReturn]
  rw [← readLines_append_render, ← hread]
  rfl

/-- The operations of an object file are read back if and only if the stray lines of its path are
idle. -/
theorem parse?_render_iff (path : String) (ops : List Op) :
    ∃ read, parse? (Bytes.ofText (render ⟨some path, ops⟩)) = some read ∧
      ((∃ source, read = .ok ⟨source, ops⟩) ↔ ∀ line ∈ strayLines path, IsIdle line) := by
  obtain ⟨source, hparse⟩ := parse?_render_source path ops
  refine ⟨_, hparse, ?_, fun hidle => ?_⟩
  · rintro ⟨source', hread⟩
    cases hstray : readLines 3 source [] (strayLines path) with
    | error e =>
      rw [hstray] at hread
      cases hread
    | ok o =>
      obtain ⟨added, hops, hadded⟩ := ops_of_readLines hstray
      rw [hstray] at hread
      have happend : o.ops ++ ops = ops := congrArg ObjectFile.ops (Except.ok.inj hread)
      rw [List.append_left_eq_self] at happend
      exact hadded.1 (by rwa [happend, List.reverse_nil, List.nil_append, eq_comm] at hops)
  · obtain ⟨source', hstray⟩ := readLines_of_idle hidle 3 source []
    rw [hstray]
    exact ⟨source', rfl⟩

end ObjectFile

end StagedSandbox
