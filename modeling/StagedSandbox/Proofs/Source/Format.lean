import StagedSandbox.Proofs.Object.Meaning
import StagedSandbox.Proofs.Source.Line

/-!
# Formatted programs

Formatting a program that was read gives a text that is read as the same lines, but for the blank
ones that were dropped (`Source.read_format`). Nothing is left to drop in it
(`Source.format_tidy`), and it has the statements it had before (`Source.statements_tidy`).
-/

namespace StagedSandbox

namespace Text

theorem mem_of_mem_dropReturn {c : Char} {line : List Char} (h : c ∈ dropReturn line) :
    c ∈ line := by
  rw [dropReturn] at h
  split at h
  · exact List.dropLast_subset line h
  · exact h

theorem lineBreak_not_mem_lines {text line : List Char} (h : line ∈ lines text) : '\n' ∉ line := by
  have hfields : ∀ {found : List (List Char)}, (∀ field ∈ found, '\n' ∉ field) →
      ∀ line ∈ linesOfFields found, '\n' ∉ line := by
    intro found hfound
    induction found with
    | nil => exact fun line hline => absurd hline List.not_mem_nil
    | cons first rest ih =>
      obtain ⟨hfirst, hrest⟩ := List.forall_mem_cons.1 hfound
      cases rest with
      | nil =>
        intro line hline
        rw [linesOfFields] at hline
        split at hline
        · cases hline
        · rwa [List.mem_singleton.1 hline]
      | cons next more =>
        rw [linesOfFields]
        · exact List.forall_mem_cons.2 ⟨fun hmem => hfirst (mem_of_mem_dropReturn hmem), ih hrest⟩
        · exact List.cons_ne_nil _ _
  exact hfields (fun _ => not_mem_of_mem_fields) line h

end Text

namespace Source

/-! ### Reading lines -/

theorem proper_of_readLines {number : Nat} {texts : List (List Char)} {lines : List Line}
    (hbreak : ∀ text ∈ texts, '\n' ∉ text) (h : readLines number texts = .ok lines) :
    ∀ l ∈ lines, l.Proper := by
  induction texts generalizing number lines with
  | nil =>
    obtain rfl := Except.ok.inj h
    exact fun l hl => absurd hl List.not_mem_nil
  | cons text rest ih =>
    obtain ⟨htext, hrest⟩ := List.forall_mem_cons.1 hbreak
    rw [readLines] at h
    cases hline : line text with
    | error mistake => simp [hline] at h
    | ok first =>
      rw [hline] at h
      obtain ⟨more, hmore, rfl⟩ := exists_of_map h
      exact List.forall_mem_cons.2 ⟨proper_of_line htext hline, ih hrest hmore⟩

/-- The lines of a program can be written. -/
theorem proper_of_read {text : String} {lines : List Line} (h : read text = .ok lines) :
    ∀ l ∈ lines, l.Proper :=
  proper_of_readLines (fun _ => Text.lineBreak_not_mem_lines) h

/-- Lines that can be written are read back. -/
theorem readLines_render {lines : List Line} (h : ∀ l ∈ lines, l.Proper) (number : Nat) :
    readLines number (lines.map Line.render) = .ok lines := by
  induction lines generalizing number with
  | nil => rfl
  | cons first rest ih =>
    obtain ⟨hfirst, hrest⟩ := List.forall_mem_cons.1 h
    rw [List.map_cons, readLines, line_render hfirst, ih hrest]
    rfl

/-! ### Blank lines -/

/-- A list of lines that is collapsed has no blank line to drop. -/
theorem collapse_collapse (afterBlank : Bool) (lines : List Line) :
    collapse afterBlank (collapse afterBlank lines) = collapse afterBlank lines := by
  induction lines generalizing afterBlank with
  | nil => rfl
  | cons first rest ih =>
    cases first with
    | blank =>
      cases afterBlank with
      | true => exact ih true
      | false => exact congrArg (Line.blank :: ·) (ih true)
    | comment text => exact congrArg (Line.comment text :: ·) (ih false)
    | statement s => exact congrArg (Line.statement s :: ·) (ih false)

theorem collapse_sublist (afterBlank : Bool) (lines : List Line) :
    (collapse afterBlank lines).Sublist lines := by
  induction lines generalizing afterBlank with
  | nil => exact List.Sublist.slnil
  | cons first rest ih =>
    cases first with
    | blank =>
      cases afterBlank with
      | true => exact (ih true).cons _
      | false => exact (ih true).cons_cons _
    | comment text => exact (ih false).cons_cons _
    | statement s => exact (ih false).cons_cons _

/-- If there is nothing to drop in lines, there is nothing to drop in the first of them. -/
theorem collapse_of_prefix {afterBlank : Bool} {start lines : List Line} (hstart : start <+: lines)
    (h : collapse afterBlank lines = lines) : collapse afterBlank start = start := by
  induction lines generalizing afterBlank start with
  | nil => rw [List.prefix_nil.1 hstart, collapse]
  | cons first rest ih =>
    cases start with
    | nil => rfl
    | cons first' start =>
      obtain ⟨rfl, hmore⟩ := List.cons_prefix_cons.1 hstart
      cases first' with
      | blank =>
        cases afterBlank with
        | true =>
          have hlength := (collapse_sublist true rest).length_le
          have hrest : collapse true rest = .blank :: rest := h
          rw [hrest, List.length_cons] at hlength
          exact absurd hlength (Nat.not_succ_le_self _)
        | false => exact congrArg (Line.blank :: ·) (ih hmore (List.cons.inj h).2)
      | comment text => exact congrArg (Line.comment text :: ·) (ih hmore (List.cons.inj h).2)
      | statement s => exact congrArg (Line.statement s :: ·) (ih hmore (List.cons.inj h).2)

/-- Blank lines are dropped at the end only. -/
theorem prefix_dropLastBlanks (lines : List Line) : dropLastBlanks lines <+: lines :=
  List.rdropWhile_prefix ..

theorem dropLastBlanks_dropLastBlanks (lines : List Line) :
    dropLastBlanks (dropLastBlanks lines) = dropLastBlanks lines :=
  List.rdropWhile_idempotent ..

/-- Tidy lines are tidied once and for all. -/
theorem tidy_tidy (lines : List Line) : tidy (tidy lines) = tidy lines := by
  have hcollapsed : collapse true (tidy lines) = tidy lines :=
    collapse_of_prefix (prefix_dropLastBlanks _) (collapse_collapse true lines)
  rw [tidy, hcollapsed]
  exact dropLastBlanks_dropLastBlanks _

/-! ### What is kept -/

theorem filterMap_dropWhile {α β : Type} {p : α → Bool} {f : α → Option β}
    (h : ∀ a, p a = true → f a = none) (list : List α) :
    (list.dropWhile p).filterMap f = list.filterMap f := by
  induction list with
  | nil => rfl
  | cons a rest ih =>
    by_cases hp : p a = true
    · rw [List.dropWhile_cons_of_pos hp, ih, List.filterMap_cons_none (h a hp)]
    · rw [List.dropWhile_cons_of_neg hp]

theorem statements_collapse (afterBlank : Bool) (lines : List Line) :
    statements (collapse afterBlank lines) = statements lines := by
  induction lines generalizing afterBlank with
  | nil => rfl
  | cons first rest ih =>
    cases first with
    | blank =>
      cases afterBlank with
      | true => exact ih true
      | false => exact ih true
    | comment text => exact ih false
    | statement s => exact congrArg (s :: ·) (ih false)

/-- Tidying keeps the statements. -/
theorem statements_tidy (lines : List Line) : statements (tidy lines) = statements lines := by
  have hblank : ∀ l, decide (l = Line.blank) = true → l.statement? = none := by
    intro l hl
    rw [of_decide_eq_true hl]
    rfl
  rw [tidy, dropLastBlanks, statements, List.filterMap_reverse, filterMap_dropWhile hblank,
    ← List.filterMap_reverse, List.reverse_reverse]
  exact statements_collapse true lines

/-! ### Formatting -/

theorem proper_tidy {lines : List Line} (h : ∀ l ∈ lines, l.Proper) :
    ∀ l ∈ tidy lines, l.Proper :=
  fun l hl => h l ((collapse_sublist true lines).mem ((prefix_dropLastBlanks _).mem hl))

/-- A formatted program is read as its tidy lines. -/
theorem read_format {lines : List Line} (h : ∀ l ∈ lines, l.Proper) :
    read (format lines) = .ok (tidy lines) := by
  have hproper := proper_tidy h
  have hbreak : ∀ text ∈ (tidy lines).map Line.render, '\n' ∉ text := by
    intro text htext
    obtain ⟨l, hl, rfl⟩ := List.mem_map.1 htext
    exact lineBreak_not_mem_render (hproper l hl)
  have hlines : Text.lines (format lines).toList = (tidy lines).map Line.render := by
    have hflat : ((tidy lines).map Line.render).flatMap (fun text => text ++ ['\n']) =
        (tidy lines).flatMap fun l => l.render ++ ['\n'] := List.flatMap_map ..
    rw [format, String.toList_ofList, ← hflat, Text.lines_flatMap_line hbreak, List.map_map]
    refine List.map_congr_left fun l hl => ?_
    rw [Function.comp_apply, ← trim_render (hproper l hl), Text.dropReturn_trim]
  rw [read, hlines, readLines_render hproper]

/-- Formatting a formatted program changes nothing. -/
theorem format_tidy (lines : List Line) : format (tidy lines) = format lines := by
  rw [format, format, tidy_tidy]

end Source

end StagedSandbox
