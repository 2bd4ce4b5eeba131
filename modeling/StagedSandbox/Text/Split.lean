/-!
# Splitting text

Fields between separators, lines, and the two parts beside the first separator.
-/

namespace StagedSandbox.Text

/-- Put a character in front of the first field, or open a new field at a separator. -/
def addToFields (separator c : Char) (found : List (List Char)) : List (List Char) :=
  if c = separator then [] :: found
  else
    match found with
    | [] => [[c]]
    | field :: more => (c :: field) :: more

/-- The fields between the separators: one more than there are separators. -/
def fields (separator : Char) (text : List Char) : List (List Char) :=
  text.foldr (addToFields separator) [[]]

/-- A line without the carriage return that stands before its line break. -/
def dropReturn (line : List Char) : List Char :=
  if line.getLast? = some '\r' then line.dropLast else line

/-- All fields but the last were ended by a line break; an empty last one is no line. -/
def linesOfFields : List (List Char) → List (List Char)
  | [] => []
  | [last] => if last.isEmpty then [] else [last]
  | line :: rest => dropReturn line :: linesOfFields rest

/-- The lines of a text, each without its line break `\n` or `\r\n`. -/
def lines (text : List Char) : List (List Char) := linesOfFields (fields '\n' text)

/-- What stands before and after the first character with a property. -/
def splitFirst? (p : Char → Bool) (text : List Char) : Option (List Char × List Char) :=
  match text.dropWhile fun c => !p c with
  | [] => none
  | _ :: after => some (text.takeWhile fun c => !p c, after)

/-- What stands before and after the last character with a property. -/
def splitLast? (p : Char → Bool) (text : List Char) : Option (List Char × List Char) :=
  (splitFirst? p text.reverse).map fun parts => (parts.2.reverse, parts.1.reverse)

/-- What follows a given beginning. -/
def stripStart? (start text : List Char) : Option (List Char) :=
  if start.isPrefixOf text then some (text.drop start.length) else none

/-! ### Laws -/

@[simp] theorem fields_nil (separator : Char) : fields separator [] = [[]] := rfl

theorem fields_cons (separator c : Char) (text : List Char) :
    fields separator (c :: text) = addToFields separator c (fields separator text) := rfl

theorem addToFields_ne_nil (separator c : Char) (found : List (List Char)) :
    addToFields separator c found ≠ [] := by
  unfold addToFields
  split
  · simp
  · cases found <;> simp

theorem fields_ne_nil (separator : Char) (text : List Char) : fields separator text ≠ [] := by
  cases text with
  | nil => simp
  | cons c rest => exact addToFields_ne_nil _ _ _

/-- Nothing is lost: the fields joined by the separator are the text. -/
theorem intercalate_fields (separator : Char) (text : List Char) :
    [separator].intercalate (fields separator text) = text := by
  induction text with
  | nil => rfl
  | cons c rest ih =>
    rw [fields_cons]
    cases hf : fields separator rest with
    | nil => exact absurd hf (fields_ne_nil _ _)
    | cons field more =>
      rw [hf] at ih
      unfold addToFields
      split
      · next h =>
        subst h
        rw [List.intercalate_cons_cons, ih]
        rfl
      · cases more with
        | nil => simpa [List.intercalate] using ih
        | cons second more =>
          rw [List.intercalate_cons_cons] at ih ⊢
          rw [List.cons_append, List.cons_append, ih]

theorem not_mem_of_mem_fields {separator : Char} {text field : List Char}
    (h : field ∈ fields separator text) : separator ∉ field := by
  induction text generalizing field with
  | nil => simp_all
  | cons c rest ih =>
    rw [fields_cons] at h
    cases hf : fields separator rest with
    | nil => exact absurd hf (fields_ne_nil _ _)
    | cons first more =>
      rw [hf] at h ih
      unfold addToFields at h
      split at h
      · rcases List.mem_cons.1 h with rfl | h
        · simp
        · exact ih h
      · rcases List.mem_cons.1 h with rfl | h
        · have := ih List.mem_cons_self
          simp_all [eq_comm]
        · exact ih (List.mem_cons_of_mem _ h)

end StagedSandbox.Text
