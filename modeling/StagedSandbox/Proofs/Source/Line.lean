import StagedSandbox.Proofs.Object.Text
import StagedSandbox.Source.Printer
import StagedSandbox.Source.Reader

/-!
# Lines of source programs

A line that was read can be written, and reading what is written gives the line again: what stands
between the quotes of a literal comes back however it was escaped, and a number however it was
spelled (`Source.line_render`). Reading only gives lines that can be written
(`Source.proper_of_line`).
-/

namespace StagedSandbox

namespace Text.Integer

/-! ### The range of a number -/

theorem le_of_digits {bound soFar n : Nat} {beyond : Error} {text : List Char}
    (hsoFar : soFar ≤ bound) (h : digits bound beyond soFar text = .ok n) : n ≤ bound := by
  induction text generalizing soFar with
  | nil =>
    obtain rfl := Except.ok.inj h
    exact hsoFar
  | cons c rest ih =>
    rw [digits] at h
    cases hdigit : digit? c with
    | none => simp [hdigit] at h
    | some d =>
      rw [hdigit] at h
      dsimp only at h
      split at h
      · next hle => exact ih hle h
      · cases h

theorem le_of_magnitude {bound n : Nat} {beyond : Error} {text : List Char}
    (h : magnitude bound beyond text = .ok n) : n ≤ bound := by
  rw [magnitude] at h
  split at h
  · cases h
  · exact le_of_digits (Nat.zero_le bound) h

/-- What is read fits the word. -/
theorem range_of_read {bits : Nat} {text : List Char} {n : Int} (h : read bits text = .ok n) :
    -Int.ofNat (signBit bits) ≤ n ∧ n < Int.ofNat (signBit bits) := by
  have hpos : 0 < signBit bits := by
    rw [signBit, Nat.one_shiftLeft]
    exact Nat.two_pow_pos _
  have hunsigned : ∀ {text : List Char},
      (magnitude (signBit bits - 1) .tooLarge text).map Int.ofNat = .ok n →
      -Int.ofNat (signBit bits) ≤ n ∧ n < Int.ofNat (signBit bits) := by
    intro text h
    cases hread : magnitude (signBit bits - 1) .tooLarge text with
    | error e => simp [hread, Except.map] at h
    | ok m =>
      rw [hread] at h
      obtain rfl : Int.ofNat m = n := Except.ok.inj h
      have hle := le_of_magnitude hread
      constructor
      · exact Int.le_trans (Int.neg_nonpos_of_nonneg (Int.natCast_nonneg _)) (Int.natCast_nonneg m)
      · exact Int.ofNat_lt.2 (by omega)
  unfold read at h
  split at h
  · cases h
  · next rest =>
    cases hread : magnitude (signBit bits) .tooSmall rest with
    | error e => simp [hread, Except.map] at h
    | ok m =>
      rw [hread] at h
      obtain rfl : -(m : Int) = n := Except.ok.inj h
      have hle := le_of_magnitude hread
      constructor
      · exact Int.neg_le_neg (Int.ofNat_le.2 hle)
      · exact Int.lt_of_le_of_lt (Int.neg_nonpos_of_nonneg (Int.natCast_nonneg m))
          (Int.ofNat_lt.2 hpos)
  · exact hunsigned h
  · exact hunsigned h

end Text.Integer

theorem exists_of_map {ε α β : Type} {f : α → β} {result : Except ε α} {b : β}
    (h : result.map f = .ok b) : ∃ a, result = .ok a ∧ f a = b := by
  cases result with
  | error e => cases h
  | ok a => exact ⟨a, rfl, Except.ok.inj h⟩

namespace Source

/-! ### Lines that can be written -/

/-- Numbers have 64 bits. -/
def Value.InRange : Value → Prop
  | .number n =>
    -Int.ofNat (Text.Integer.signBit 64) ≤ n ∧ n < Int.ofNat (Text.Integer.signBit 64)
  | .text _ => True

def Statement.InRange : Statement → Prop
  | .print v | .puts (some v) => v.InRange
  | .puts none | .exit _ | .abort => True

/-- A line that can stand in a program: its numbers are in range, and a comment is one line that
begins with its mark and has no blanks at its ends. -/
def Line.Proper : Line → Prop
  | .blank => True
  | .comment text => text.head? = some '#' ∧ Text.trim text = text ∧ '\n' ∉ text
  | .statement s => s.InRange

/-! ### Numbers -/

theorem inRange_of_number? {text : List Char} {n : Int} (h : number? text = some n) :
    (Value.number n).InRange := by
  rw [number?] at h
  split at h
  · cases h
  · cases hread : Text.Integer.read 64 (text.filter (· ≠ '_')) with
    | error e =>
      rw [hread] at h
      cases h
    | ok m =>
      rw [hread] at h
      obtain rfl : m = n := Option.some.inj h
      exact Text.Integer.range_of_read hread

theorem underscore_not_mem_signed (n : Int) : '_' ∉ (Text.signed n).toList := by
  intro h
  obtain h | h := Text.mem_signed h
  · cases h
  · cases h

theorem number?_signed {n : Int} (h : (Value.number n).InRange) :
    number? (Text.signed n).toList = some n := by
  have hfree := underscore_not_mem_signed n
  have hends : ¬((Text.signed n).toList.head? = some '_' ∨
      (Text.signed n).toList.getLast? = some '_') := by
    rintro (hhead | hlast)
    · exact hfree (List.mem_of_head? hhead)
    · exact hfree (List.mem_of_getLast? hlast)
  have hfilter : (Text.signed n).toList.filter (· ≠ '_') = (Text.signed n).toList :=
    List.filter_eq_self.2 fun c hc => decide_eq_true fun heq => hfree (heq ▸ hc)
  rw [number?, if_neg hends, hfilter, Text.Integer.read_signed h.1 h.2]
  rfl

/-! ### Literals -/

/-- A character is read back however it is escaped. -/
theorem literal_escapeChar (c : Char) (rest : List Char) :
    literal (escapeChar c ++ rest) = (literal rest).map (c :: ·) := by
  unfold escapeChar
  split
  · rfl
  · rfl
  · rfl
  · rfl
  · next hquote hbackslash _ _ =>
    rw [List.singleton_append, literal]
    · exact hquote
    · exact fun hc _ => hbackslash hc
    · exact fun _ _ hc _ => hbackslash hc

/-- A literal is read to its closing quote. -/
theorem literal_escaped (text : List Char) :
    literal (text.flatMap escapeChar ++ ['"']) = .ok text := by
  induction text with
  | nil => rfl
  | cons c rest ih =>
    rw [List.flatMap_cons, List.append_assoc, literal_escapeChar, ih]
    rfl

theorem lineBreak_not_mem_escapeChar (c : Char) : '\n' ∉ escapeChar c := by
  unfold escapeChar
  split
  · decide
  · decide
  · decide
  · decide
  · next _ _ hbreak _ =>
    rw [List.mem_singleton]
    exact fun h => hbreak h.symm

/-! ### Values -/

theorem lineBreak_not_mem_value (v : Value) : '\n' ∉ v.render := by
  cases v with
  | number n =>
    intro h
    exact absurd (Text.isBlank_of_mem_signed h) (by decide)
  | text t =>
    intro h
    obtain h | h := List.mem_cons.1 h
    · cases h
    · obtain h | h := List.mem_append.1 h
      · obtain ⟨c, -, hc⟩ := List.mem_flatMap.1 h
        exact lineBreak_not_mem_escapeChar c hc
      · cases List.mem_singleton.1 h

theorem render_value_ne_nil (v : Value) : v.render ≠ [] := by
  cases v with
  | number n => exact Text.signed_ne_nil n
  | text t => exact List.cons_ne_nil _ _

/-- A value has no blanks at its ends, whatever stands between its quotes. -/
theorem isBlank_of_ends_value (v : Value) :
    (∀ c, v.render.head? = some c → Text.isBlank c = false) ∧
      ∀ c, v.render.getLast? = some c → Text.isBlank c = false := by
  cases v with
  | number n =>
    constructor
    · exact fun c hc => Text.isBlank_of_mem_signed (List.mem_of_head? hc)
    · exact fun c hc => Text.isBlank_of_mem_signed (List.mem_of_getLast? hc)
  | text t =>
    constructor
    · intro c hc
      obtain rfl : '"' = c := Option.some.inj hc
      decide
    · intro c hc
      have hlast : (Value.text t).render.getLast? = some '"' := by
        rw [Value.render, ← List.cons_append, List.getLast?_append_of_ne_nil _ (by simp)]
        rfl
      obtain rfl : '"' = c := Option.some.inj (hlast.symm.trans hc)
      decide

theorem value_render {v : Value} (h : v.InRange) : value v.render = .ok v := by
  cases v with
  | number n =>
    have hquote : ∀ rest, (Text.signed n).toList ≠ '"' :: rest := by
      intro rest heq
      obtain h | h := Text.mem_signed (heq ▸ List.mem_cons_self)
      · cases h
      · cases h
    rw [Value.render, value, number?_signed h]
    exact hquote
  | text t =>
    rw [Value.render, value, literal_escaped]
    rfl

theorem inRange_of_value {text : List Char} {v : Value} (h : value text = .ok v) : v.InRange := by
  unfold value at h
  split at h
  · obtain ⟨t, -, rfl⟩ := exists_of_map h
    trivial
  · cases hnumber : number? text with
    | none => simp [hnumber] at h
    | some n =>
      rw [hnumber] at h
      obtain rfl := Except.ok.inj h
      exact inRange_of_number? hnumber

/-! ### Statements -/

theorem splitKeyword_append {keyword : List Char} (h : keyword.any Text.isBlank = false)
    (argument : List Char) :
    splitKeyword (keyword ++ ' ' :: argument) = (keyword, Text.trim argument) := by
  have hkeyword : ∀ c ∈ keyword, Text.isBlank c = false := fun c hc =>
    Bool.eq_false_iff.2 (List.any_eq_false.1 h c hc)
  rw [splitKeyword, Text.splitFirst?_append_cons (by decide) hkeyword]

theorem trim_value (v : Value) : Text.trim v.render = v.render :=
  Text.trim_of_ends (isBlank_of_ends_value v).1 (isBlank_of_ends_value v).2

theorem exitCode_signed (code : Int32) :
    exitCode (Text.signed code.toInt).toList = .ok code := by
  have hrange : (Value.number code.toInt).InRange := by
    constructor
    · exact Int.le_trans (by decide) code.le_toInt
    · exact Int.lt_of_lt_of_le code.toInt_lt (by decide)
  rw [exitCode, number?_signed hrange]
  dsimp only
  rw [if_pos ⟨code.minValue_le_toInt, code.toInt_le⟩, Int32.ofInt_toInt]

/-- A statement is read back from what is written. -/
theorem statement_render {s : Statement} (h : s.InRange) : statement s.render = .ok s := by
  cases s with
  | print v =>
    obtain ⟨c, rest, hcons⟩ := List.exists_cons_of_ne_nil (render_value_ne_nil v)
    have hrender : (Statement.print v).render = "print".toList ++ ' ' :: v.render := rfl
    have hvalue : value (c :: rest) = .ok v := hcons ▸ value_render h
    rw [statement, hrender, splitKeyword_append (by decide), trim_value, hcons]
    dsimp only
    rw [String.ofList_toList]
    change (value (c :: rest)).map Statement.print = _
    rw [hvalue]
    rfl
  | puts v =>
    cases v with
    | none => rfl
    | some v =>
      obtain ⟨c, rest, hcons⟩ := List.exists_cons_of_ne_nil (render_value_ne_nil v)
      have hrender : (Statement.puts (some v)).render = "puts".toList ++ ' ' :: v.render := rfl
      have hvalue : value (c :: rest) = .ok v := hcons ▸ value_render h
      rw [statement, hrender, splitKeyword_append (by decide), trim_value, hcons]
      dsimp only
      rw [String.ofList_toList]
      change (value (c :: rest)).map (fun v => Statement.puts (some v)) = _
      rw [hvalue]
      rfl
  | exit code =>
    dsimp only [Statement.render]
    split
    · next hzero => rw [hzero]; rfl
    · have htrim : Text.trim (Text.signed code.toInt).toList = (Text.signed code.toInt).toList :=
        trim_value (.number code.toInt)
      obtain ⟨c, rest, hcons⟩ := List.exists_cons_of_ne_nil (Text.signed_ne_nil code.toInt)
      have hrender : "exit ".toList ++ (Text.signed code.toInt).toList =
          "exit".toList ++ ' ' :: (Text.signed code.toInt).toList := rfl
      have hcode : exitCode (c :: rest) = .ok code := hcons ▸ exitCode_signed code
      rw [statement, hrender, splitKeyword_append (by decide), htrim, hcons]
      dsimp only
      rw [String.ofList_toList]
      change (exitCode (c :: rest)).map Statement.exit = _
      rw [hcode]
      rfl
  | abort => rfl

theorem inRange_of_statement {text : List Char} {s : Statement} (h : statement text = .ok s) :
    s.InRange := by
  rw [statement] at h
  dsimp only at h
  split at h
  · cases h
  · obtain ⟨v, hvalue, rfl⟩ := exists_of_map h
    exact inRange_of_value hvalue
  · obtain rfl := Except.ok.inj h
    trivial
  · obtain ⟨v, hvalue, rfl⟩ := exists_of_map h
    exact inRange_of_value hvalue
  · obtain rfl := Except.ok.inj h
    trivial
  · obtain ⟨code, -, rfl⟩ := exists_of_map h
    trivial
  · obtain rfl := Except.ok.inj h
    trivial
  · cases h
  · cases h

/-! ### Lines -/

/-- The text of a line that is neither blank nor a comment, without blanks at its ends. -/
structure IsStatementText (text : List Char) : Prop where
  starts : ∃ c rest, text = c :: rest ∧ c ≠ '#'
  trimmed : Text.trim text = text
  oneLine : '\n' ∉ text

theorem isStatementText_append {c : Char} {keyword argument : List Char} (hmark : c ≠ '#')
    (hc : Text.isBlank c = false) (hkeyword : '\n' ∉ c :: keyword) (hne : argument ≠ [])
    (hlast : ∀ d, argument.getLast? = some d → Text.isBlank d = false)
    (hargument : '\n' ∉ argument) : IsStatementText (c :: keyword ++ argument) where
  starts := ⟨c, keyword ++ argument, rfl, hmark⟩
  trimmed := by
    refine Text.trim_of_ends (fun d hd => ?_) fun d hd => hlast d ?_
    · obtain rfl : c = d := by simpa using hd
      exact hc
    · rwa [List.getLast?_append_of_ne_nil _ hne] at hd
  oneLine := by
    intro h
    obtain h | h := List.mem_append.1 h
    · exact hkeyword h
    · exact hargument h

theorem isStatementText_render (s : Statement) : IsStatementText s.render := by
  have hvalue {c : Char} (keyword : String) (v : Value) (hmark : c ≠ '#')
      (hc : Text.isBlank c = false) (hkeyword : '\n' ∉ c :: keyword.toList) :
      IsStatementText (c :: keyword.toList ++ v.render) :=
    isStatementText_append hmark hc hkeyword (render_value_ne_nil v) (isBlank_of_ends_value v).2
      (lineBreak_not_mem_value v)
  cases s with
  | print v => exact hvalue "rint " v (by decide) (by decide) (by decide)
  | puts v =>
    cases v with
    | none => exact ⟨⟨'p', "uts".toList, rfl, by decide⟩, by decide, by decide⟩
    | some v => exact hvalue "uts " v (by decide) (by decide) (by decide)
  | exit code =>
    dsimp only [Statement.render]
    split
    · exact ⟨⟨'e', "xit".toList, rfl, by decide⟩, by decide, by decide⟩
    · exact hvalue "xit " (.number code.toInt) (by decide) (by decide) (by decide)
  | abort => exact ⟨⟨'a', "bort".toList, rfl, by decide⟩, by decide, by decide⟩

/-- A line is read back from what is written. -/
theorem line_render {l : Line} (h : l.Proper) : line l.render = .ok l := by
  cases l with
  | blank => rfl
  | comment text =>
    obtain ⟨hhead, htrim, -⟩ := h
    obtain ⟨rest, rfl⟩ := List.head?_eq_some_iff.1 hhead
    rw [Line.render, line, htrim]
    rfl
  | statement s =>
    obtain ⟨⟨c, rest, hrender, hc⟩, htrim, -⟩ := isStatementText_render s
    rw [Line.render, line, htrim]
    split
    · next hempty => simp [hempty] at hrender
    · next hmark =>
      rw [hmark] at hrender
      exact absurd (List.cons.inj hrender).1.symm hc
    · rw [statement_render h]
      rfl

/-- Only lines that can be written are read. -/
theorem proper_of_line {text : List Char} {l : Line} (hbreak : '\n' ∉ text)
    (h : line text = .ok l) : l.Proper := by
  rw [line] at h
  split at h
  · obtain rfl := Except.ok.inj h
    trivial
  · next rest htrim =>
    obtain rfl := Except.ok.inj h
    refine ⟨rfl, ?_, ?_⟩
    · rw [← htrim, Text.trim_trim]
    · rw [← htrim]
      exact fun hmem => hbreak (Text.mem_of_mem_trim hmem)
  · obtain ⟨s, hs, rfl⟩ := exists_of_map h
    exact inRange_of_statement hs

/-! ### The form of a written line -/

theorem lineBreak_not_mem_render {l : Line} (h : l.Proper) : '\n' ∉ l.render := by
  cases l with
  | blank => exact List.not_mem_nil
  | comment text => exact h.2.2
  | statement s => exact (isStatementText_render s).oneLine

theorem trim_render {l : Line} (h : l.Proper) : Text.trim l.render = l.render := by
  cases l with
  | blank => rfl
  | comment text => exact h.2.1
  | statement s => exact (isStatementText_render s).trimmed

end Source

end StagedSandbox
