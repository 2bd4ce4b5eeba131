import StagedSandbox.Proofs.Object.Header
import StagedSandbox.Source.Reader

/-!
# The first mistake

Source programs and object files are read line by line. If they cannot be read, the mistake that is
told is that of the first line with one, and it comes with the number of that line
(`Source.read_eq_error_iff`, `ObjectFile.parse?_eq_error_iff`).
-/

namespace StagedSandbox

namespace Text

/-- Of lines that are numbered from the given number on, this is the number of the first one with a
mistake, and its mistake. -/
def FirstMistake {μ : Type} (mistake? : List Char → Option μ) (start : Nat)
    (lines : List (List Char)) (number : Nat) (mistake : μ) : Prop :=
  ∃ before wrong after, lines = before ++ wrong :: after ∧
    (∀ text ∈ before, mistake? text = none) ∧ mistake? wrong = some mistake ∧
    number = start + before.length

variable {μ : Type} {mistake? : List Char → Option μ} {start number : Nat} {mistake : μ}

theorem not_firstMistake_nil : ¬ FirstMistake mistake? start [] number mistake := by
  rintro ⟨before, wrong, after, h, -⟩
  simp at h

theorem firstMistake_cons_of_some {text : List Char} {m : μ} (h : mistake? text = some m)
    (rest : List (List Char)) :
    FirstMistake mistake? start (text :: rest) number mistake ↔ start = number ∧ m = mistake := by
  constructor
  · rintro ⟨before, wrong, after, hlines, hbefore, hwrong, hnumber⟩
    cases before with
    | nil =>
      obtain ⟨rfl, -⟩ := List.cons.inj hlines
      exact ⟨hnumber.symm, Option.some.inj (h.symm.trans hwrong)⟩
    | cons first before =>
      obtain ⟨rfl, -⟩ := List.cons.inj hlines
      simp [hbefore text (List.mem_cons_self ..)] at h
  · rintro ⟨rfl, rfl⟩
    exact ⟨[], text, rest, rfl, by simp, h, rfl⟩

theorem firstMistake_cons_of_none {text : List Char} (h : mistake? text = none)
    (rest : List (List Char)) :
    FirstMistake mistake? start (text :: rest) number mistake ↔
      FirstMistake mistake? (start + 1) rest number mistake := by
  constructor
  · rintro ⟨before, wrong, after, hlines, hbefore, hwrong, hnumber⟩
    cases before with
    | nil =>
      obtain ⟨rfl, -⟩ := List.cons.inj hlines
      simp [h] at hwrong
    | cons first before =>
      obtain ⟨rfl, rfl⟩ := List.cons.inj hlines
      refine ⟨before, wrong, after, rfl, fun t ht => hbefore t (List.mem_cons_of_mem _ ht),
        hwrong, ?_⟩
      rw [hnumber, List.length_cons]
      omega
  · rintro ⟨before, wrong, after, rfl, hbefore, hwrong, hnumber⟩
    refine ⟨text :: before, wrong, after, rfl, List.forall_mem_cons.2 ⟨h, hbefore⟩, hwrong, ?_⟩
    rw [hnumber, List.length_cons]
    omega

end Text

/-! ### Source programs -/

namespace Source

/-- What is wrong with a line of a source program. -/
def mistake? (text : List Char) : Option Mistake :=
  match line text with
  | .ok _ => none
  | .error mistake => some mistake

theorem readLines_eq_error_iff {start : Nat} {texts : List (List Char)} {e : SyntaxError} :
    readLines start texts = .error e ↔
      Text.FirstMistake mistake? start texts e.line e.mistake := by
  induction texts generalizing start with
  | nil => exact iff_of_false nofun Text.not_firstMistake_nil
  | cons text rest ih =>
    rw [readLines]
    cases hline : line text with
    | error mistake =>
      have hmistake : mistake? text = some mistake := by rw [mistake?, hline]
      rw [Text.firstMistake_cons_of_some hmistake]
      obtain ⟨number, m⟩ := e
      simp
    | ok first =>
      have hnone : mistake? text = none := by rw [mistake?, hline]
      rw [Text.firstMistake_cons_of_none hnone, ← ih]
      cases readLines (start + 1) rest with
      | error e' => exact Iff.rfl
      | ok lines => exact iff_of_false nofun nofun

/-- A program cannot be read because of its first line that does not parse. -/
theorem read_eq_error_iff {text : String} {e : SyntaxError} :
    read text = .error e ↔
      Text.FirstMistake mistake? 1 (Text.lines text.toList) e.line e.mistake :=
  readLines_eq_error_iff

end Source

/-! ### Object files -/

namespace ObjectFile

/-- What is wrong with a line of an object file. -/
def mistake? (text : List Char) : Option Op.Mistake :=
  if IsIdle text then none
  else
    match Op.parse (Text.trim text) with
    | .ok _ => none
    | .error mistake => some mistake

theorem readLines_eq_error_iff {start : Nat} {source : Option String} {ops : List Op}
    {texts : List (List Char)} {e : ParseError} :
    readLines start source ops texts = .error e ↔
      Text.FirstMistake mistake? start texts e.line e.mistake := by
  induction texts generalizing start source ops with
  | nil => exact iff_of_false nofun Text.not_firstMistake_nil
  | cons text rest ih =>
    by_cases hidle : IsIdle text
    · obtain ⟨source', hread⟩ := readLines_idle hidle start source ops rest
      rw [hread, ih, Text.firstMistake_cons_of_none (if_pos hidle)]
    · have hmistake : mistake? text =
          match Op.parse (Text.trim text) with
          | .ok _ => none
          | .error mistake => some mistake := if_neg hidle
      rw [readLines_of_not_idle hidle]
      cases hparse : Op.parse (Text.trim text) with
      | ok op =>
        rw [hparse] at hmistake
        rw [Text.firstMistake_cons_of_none hmistake]
        exact ih
      | error mistake =>
        rw [hparse] at hmistake
        rw [Text.firstMistake_cons_of_some hmistake]
        obtain ⟨number, m⟩ := e
        simp

/-- An object file is malformed because of its first line that does not parse. -/
theorem parse?_eq_error_iff {data : Bytes} {e : ParseError} :
    parse? data = some (.error e) ↔
      ∃ text rest, data.text? = some text ∧ Text.lines text.toList = mark.toList :: rest ∧
        Text.FirstMistake mistake? 2 rest e.line e.mistake := by
  rw [parse?]
  cases htext : data.text? with
  | none => simp
  | some text =>
    cases hlines : Text.lines text.toList with
    | nil => simp [hlines]
    | cons first rest =>
      by_cases hfirst : first = mark.toList
      · simp [hlines, hfirst, readLines_eq_error_iff]
      · simp [hlines, hfirst]

end ObjectFile

end StagedSandbox
