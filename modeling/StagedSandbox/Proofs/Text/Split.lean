import Mathlib.Data.List.DropRight
import Mathlib.Data.List.TakeWhile
import StagedSandbox.Text.Blank
import StagedSandbox.Text.Split

/-!
# Laws of splitting

A text that was put together with separators or line breaks is cut into what it was made of, as
long as these do not hold the separator themselves. A text without blanks at its ends is not
trimmed.
-/

namespace StagedSandbox.Text

/-! ### Fields -/

theorem fields_of_not_mem {separator : Char} {text : List Char} (h : separator ∉ text) :
    fields separator text = [text] := by
  induction text with
  | nil => rfl
  | cons c rest ih =>
    obtain ⟨hc, hrest⟩ := not_or.1 (mt List.mem_cons.2 h)
    rw [fields_cons, ih hrest, addToFields, if_neg fun e => hc e.symm]

theorem addToFields_self (separator : Char) (found : List (List Char)) :
    addToFields separator separator found = [] :: found := if_pos rfl

/-- A text is cut at each of its separators. -/
theorem fields_append_cons (separator : Char) (text rest : List Char) :
    fields separator (text ++ separator :: rest) =
      fields separator text ++ fields separator rest := by
  induction text with
  | nil => rw [List.nil_append, fields_cons, addToFields_self, fields_nil, List.singleton_append]
  | cons c more ih =>
    rw [List.cons_append, fields_cons, fields_cons, ih]
    cases hfields : fields separator more with
    | nil => exact absurd hfields (fields_ne_nil separator more)
    | cons field others =>
      unfold addToFields
      split <;> rfl

theorem splitFirst?_append_cons {p : Char → Bool} {separator : Char} (hsep : p separator = true)
    {before : List Char} (h : ∀ c ∈ before, p c = false) (after : List Char) :
    splitFirst? p (before ++ separator :: after) = some (before, after) := by
  have hbefore : ∀ c ∈ before, (!p c) = true := fun c hc => by rw [h c hc]; rfl
  rw [splitFirst?, List.dropWhile_append_of_pos hbefore, List.takeWhile_append_of_pos hbefore]
  simp [hsep]

theorem splitLast?_append_cons {p : Char → Bool} {separator : Char} (hsep : p separator = true)
    (before : List Char) {after : List Char} (h : ∀ c ∈ after, p c = false) :
    splitLast? p (before ++ separator :: after) = some (before, after) := by
  have hreverse : (before ++ separator :: after).reverse =
      after.reverse ++ separator :: before.reverse := by simp
  rw [splitLast?, hreverse,
    splitFirst?_append_cons hsep (fun c hc => h c (List.mem_reverse.1 hc))]
  simp

theorem stripStart?_of_head_ne {c d : Char} (h : c ≠ d) (start text : List Char) :
    stripStart? (c :: start) (d :: text) = none := by
  rw [stripStart?, if_neg (by simp [h])]

/-! ### Lines -/

/-- The fields between line breaks are the lines, and an empty one after the last. -/
theorem fields_flatMap_line {list : List (List Char)} (h : ∀ line ∈ list, '\n' ∉ line) :
    fields '\n' (list.flatMap fun line => line ++ ['\n']) = list ++ [[]] := by
  induction list with
  | nil => rfl
  | cons line rest ih =>
    rw [List.flatMap_cons, List.append_assoc, List.singleton_append, fields_append_cons,
      fields_of_not_mem (h line List.mem_cons_self),
      ih fun other hother => h other (List.mem_cons_of_mem _ hother)]
    rfl

theorem linesOfFields_append_nil (list : List (List Char)) :
    linesOfFields (list ++ [[]]) = list.map dropReturn := by
  induction list with
  | nil => rfl
  | cons line rest ih =>
    cases hrest : rest ++ [[]] with
    | nil => exact absurd hrest (by simp)
    | cons next more =>
      rw [hrest] at ih
      rw [List.cons_append, hrest, linesOfFields, ih, List.map_cons]
      simp

/-- Lines that were ended by line breaks are read back, but for a carriage return at the end. -/
theorem lines_flatMap_line {list : List (List Char)} (h : ∀ line ∈ list, '\n' ∉ line) :
    lines (list.flatMap fun line => line ++ ['\n']) = list.map dropReturn := by
  rw [lines, fields_flatMap_line h, linesOfFields_append_nil]

/-- Only the last character of a line can be dropped. -/
theorem dropReturn_cons_cons (c d : Char) (line : List Char) :
    dropReturn (c :: d :: line) = c :: dropReturn (d :: line) := by
  rw [dropReturn, dropReturn, List.getLast?_cons_cons]
  split <;> rfl

theorem dropReturn_of_not_mem {line : List Char} (h : '\r' ∉ line) : dropReturn line = line := by
  rw [dropReturn, if_neg fun hlast => h (List.mem_of_getLast? hlast)]

/-! ### Blanks at the ends -/

theorem dropWhile_of_head {p : Char → Bool} {text : List Char}
    (h : ∀ c, text.head? = some c → p c = false) : text.dropWhile p = text := by
  cases text with
  | nil => rfl
  | cons c rest => rw [List.dropWhile_cons_of_neg (by simp [h c rfl])]

theorem trimRight_of_getLast {text : List Char}
    (h : ∀ c, text.getLast? = some c → isBlank c = false) : trimRight text = text := by
  rw [trimRight, dropWhile_of_head fun c hc => h c (by rwa [List.head?_reverse] at hc),
    List.reverse_reverse]

theorem trimRight_cons {c : Char} (h : isBlank c = false) (rest : List Char) :
    trimRight (c :: rest) = c :: trimRight rest := by
  have hlast : List.dropWhile isBlank [c] = [c] := dropWhile_of_head fun d hd => by
    obtain rfl : c = d := by simpa using hd
    exact h
  rw [trimRight, List.reverse_cons, List.dropWhile_append, hlast, trimRight]
  split
  · next hempty => rw [List.isEmpty_iff.1 hempty]; rfl
  · rw [List.reverse_append]; rfl

theorem trim_cons {c : Char} (h : isBlank c = false) (rest : List Char) :
    trim (c :: rest) = c :: trimRight rest := by
  rw [trim, List.dropWhile_cons_of_neg (by simp [h]), trimRight_cons h]

/-- A text that neither begins nor ends with a blank is not trimmed. -/
theorem trim_of_ends {text : List Char} (hhead : ∀ c, text.head? = some c → isBlank c = false)
    (hlast : ∀ c, text.getLast? = some c → isBlank c = false) : trim text = text := by
  rw [trim, dropWhile_of_head hhead, trimRight_of_getLast hlast]

theorem mem_of_mem_trim {c : Char} {text : List Char} (h : c ∈ trim text) : c ∈ text := by
  rw [trim, trimRight, List.mem_reverse] at h
  exact (List.dropWhile_sublist _).mem (List.mem_reverse.1 ((List.dropWhile_sublist _).mem h))

theorem isBlank_head_trim {c : Char} {text : List Char} (h : (trim text).head? = some c) :
    isBlank c = false := by
  obtain ⟨ending, hending⟩ : trim text <+: text.dropWhile isBlank := List.rdropWhile_prefix ..
  have hhead : (text.dropWhile isBlank).head? = some c := by
    rw [← hending, List.head?_append, h]
    rfl
  have hnot := List.head?_dropWhile_not isBlank text
  rw [hhead] at hnot
  simpa using hnot

theorem isBlank_getLast_trim {c : Char} {text : List Char} (h : (trim text).getLast? = some c) :
    isBlank c = false := by
  rw [trim, trimRight, List.getLast?_reverse] at h
  have hnot := List.head?_dropWhile_not isBlank (text.dropWhile isBlank).reverse
  rw [h] at hnot
  simpa using hnot

/-- Nothing is left to trim. -/
theorem trim_trim (text : List Char) : trim (trim text) = trim text :=
  trim_of_ends (fun _ => isBlank_head_trim) fun _ => isBlank_getLast_trim

theorem dropReturn_trim (text : List Char) : dropReturn (trim text) = trim text := by
  rw [dropReturn, if_neg fun hlast => absurd (isBlank_getLast_trim hlast) (by decide)]

end StagedSandbox.Text
