import StagedSandbox.Json.Value
import StagedSandbox.Proofs.Text.Numeral

/-!
# Tokens of written JSON

A piece of text that is read as the same tokens whatever follows it (`Json.LexesTo`). Strings are
such pieces, whatever characters they hold and however these are escaped; a number is one together
with the character that ends it.
-/

namespace StagedSandbox.Json

/-! ### Strings -/

theorem hex4?_control (n : Fin 32) :
    hex4? '0' '0' (Nat.digitChar (n / 16)) (Nat.digitChar (n % 16)) = some n := by
  revert n
  decide

theorem ofUnit_toNat {c : Char} (h : c.toNat < 0x20) : Piece.ofUnit c.toNat = .char c := by
  have hplain : ¬((isHigh c.toNat || isLow c.toNat) = true) := by
    simp only [isHigh, isLow, Bool.or_eq_true, Bool.and_eq_true, decide_eq_true_eq]
    omega
  rw [Piece.ofUnit, if_neg hplain, Char.ofNat_toNat]

/-- A character of a string is read back however it is escaped. -/
theorem stringBody_escapeChar (c : Char) (rest : List Char) :
    stringBody (escapeChar c ++ rest) =
      (stringBody rest).map fun body => (.char c :: body.1, body.2) := by
  unfold escapeChar
  split
  · next h => rw [h]; rfl
  split
  · next h => rw [h]; rfl
  split
  · next h => rw [h]; rfl
  split
  · next h => rw [h]; rfl
  split
  · next h => rw [h]; rfl
  split
  · next h => rw [h]; rfl
  split
  · next h => rw [h]; rfl
  split
  · next hlt =>
    have hsmall : c.toNat < 0x20 := hlt
    have hhex : hex4? '0' '0' (Nat.digitChar (c.toNat / 16)) (Nat.digitChar (c.toNat % 16)) =
        some c.toNat := hex4?_control ⟨c.toNat, hsmall⟩
    rw [escapeControl, List.cons_append, List.cons_append, List.cons_append, List.cons_append,
      List.cons_append, List.cons_append, List.nil_append, stringBody, hhex]
    dsimp only
    rw [ofUnit_toNat hsmall]
  · next hquote hbackslash _ _ _ _ _ hlarge =>
    rw [List.singleton_append, stringBody, if_neg hlarge]
    · exact hquote
    · exact fun _ _ _ _ _ hc _ => hbackslash hc
    · exact fun _ _ hc _ => hbackslash hc

/-- A string is read to its closing quote. -/
theorem stringBody_escaped (text rest : List Char) :
    stringBody (text.flatMap escapeChar ++ '"' :: rest) = some (text.map .char, rest) := by
  induction text with
  | nil => rw [List.flatMap_nil, List.nil_append, stringBody]; rfl
  | cons c more ih =>
    rw [List.flatMap_cons, List.append_assoc, stringBody_escapeChar, ih]
    rfl

theorem joinPieces_map_char (text : List Char) : joinPieces (text.map .char) = some text := by
  induction text with
  | nil => rfl
  | cons c rest ih =>
    rw [List.map_cons, joinPieces, ih]
    rfl

/-! ### Numbers -/

/-- No number begins with a needless zero. -/
theorem head_toDigits {n : Nat} (h : 0 < n) : (Nat.toDigits 10 n).head? ≠ some '0' := by
  induction n using Nat.strongRecOn with
  | ind n ih =>
    by_cases hsmall : n < 10
    · have hdigit : ∀ n : Fin 10, 0 < n.val → Nat.digitChar n ≠ '0' := by decide
      rw [Nat.toDigits_of_lt_base hsmall]
      exact fun heq => hdigit ⟨n, hsmall⟩ h (Option.some.inj heq)
    · have hpos : 0 < n / 10 := by omega
      have hsplit : Nat.toDigits 10 n = Nat.toDigits 10 (n / 10) ++ Nat.toDigits 10 (n % 10) := by
        rw [Nat.toDigits_append_toDigits (by decide) hpos (Nat.mod_lt _ (by decide)),
          Nat.div_add_mod]
      rw [hsplit, List.head?_append_of_ne_nil _ Nat.toDigits_ne_nil]
      exact ih (n / 10) (by omega) hpos

theorem hasLeadingZero_renderNat (n : Nat) : hasLeadingZero (renderNat n) = false := by
  obtain rfl | hpos := Nat.eq_zero_or_pos n
  · rfl
  · rw [hasLeadingZero, renderNat, beq_eq_false_iff_ne.2 (head_toDigits hpos), Bool.false_and]

/-- The digits of a number end where another character stands. -/
theorem digits?_renderNat (n : Nat) {c : Char} (hc : c.isDigit = false) (rest : List Char) :
    digits? (renderNat n ++ c :: rest) = some (renderNat n, c :: rest) := by
  have hdigits : ∀ d ∈ renderNat n, d.isDigit = true := fun d hd =>
    Nat.isDigit_of_mem_toDigits (by decide) (by decide) hd
  have htake : (renderNat n ++ c :: rest).takeWhile Char.isDigit = renderNat n := by
    rw [List.takeWhile_append_of_pos hdigits, List.takeWhile_cons_of_neg (by simp [hc]),
      List.append_nil]
  have hdrop : (renderNat n ++ c :: rest).dropWhile Char.isDigit = c :: rest := by
    rw [List.dropWhile_append_of_pos hdigits, List.dropWhile_cons_of_neg (by simp [hc])]
  rw [digits?, htake, hdrop]
  split
  · next hnil => exact absurd hnil Nat.toDigits_ne_nil
  · rfl

theorem ofDigits_renderNat (n : Nat) : ofDigits (renderNat n) = n :=
  Nat.ofDigitChars_toDigits (by decide) (by decide)

/-- A number ends at a comma, and at the end of an array. -/
theorem unsigned?_renderNat (n : Nat) {c : Char} (hc : c = ',' ∨ c = ']') (rest : List Char) :
    unsigned? (renderNat n ++ c :: rest) = some (some n, c :: rest) := by
  have hdigit : c.isDigit = false := by
    obtain rfl | rfl := hc
    · decide
    · decide
  rw [unsigned?, digits?_renderNat n hdigit]
  dsimp only
  rw [hasLeadingZero_renderNat]
  obtain rfl | rfl := hc
  · simp [fraction?, exponent?, ofDigits_renderNat]
  · simp [fraction?, exponent?, ofDigits_renderNat]

theorem token?_of_isDigit {c : Char} (h : c.isDigit = true) (rest : List Char) :
    token? c rest = (unsigned? (c :: rest)).map fun parts => (.number parts.1, parts.2) := by
  unfold token?
  split
  case h_11 =>
    rw [number?]
    intro more heq
    obtain ⟨rfl, -⟩ := List.cons.inj heq
    cases h
  all_goals cases h

/-! ### Pieces of text -/

/-- A text that is read as the same tokens whatever follows it. -/
def LexesTo (text : List Char) (list : List Token) : Prop :=
  ∀ rest, tokens (text ++ rest) = (tokens rest).map (list ++ ·)

theorem tokens_cons {c : Char} {rest rest' : List Char} {token : Token} (hc : isSpace c = false)
    (h : token? c rest = some (token, rest')) :
    tokens (c :: rest) = (tokens rest').map (token :: ·) := by
  have hdrop : (c :: rest).dropWhile isSpace = c :: rest :=
    List.dropWhile_cons_of_neg (by simp [hc])
  rw [tokens]
  split
  · next hnil => simp [hdrop] at hnil
  · next c' more hcons =>
    rw [hdrop] at hcons
    obtain ⟨rfl, rfl⟩ := List.cons.inj hcons
    split
    · next hnone => simp [h] at hnone
    · next token' rest'' hsome =>
      obtain ⟨rfl, rfl⟩ := Prod.mk.inj (Option.some.inj (h.symm.trans hsome))
      rfl

theorem lexesTo_of_token {c : Char} {text : List Char} {token : Token} (hc : isSpace c = false)
    (h : ∀ rest, token? c (text ++ rest) = some (token, rest)) : LexesTo (c :: text) [token] :=
  fun rest => tokens_cons hc (h rest)

theorem lexesTo_nil : LexesTo [] [] := by
  intro rest
  rw [List.nil_append]
  exact Option.map_id'.symm

theorem LexesTo.append {start more : List Char} {list list' : List Token} (h : LexesTo start list)
    (h' : LexesTo more list') : LexesTo (start ++ more) (list ++ list') := by
  intro rest
  rw [List.append_assoc, h, h', Option.map_map]
  refine congrArg (Option.map · _) (funext fun found => ?_)
  exact (List.append_assoc ..).symm

/-- A piece that is a whole text. -/
theorem LexesTo.tokens_eq {text : List Char} {list : List Token} (h : LexesTo text list) :
    tokens text = some list := by
  have hend : tokens [] = some [] := by rw [tokens]; rfl
  have hrest := h []
  rwa [List.append_nil, hend, Option.map_some, List.append_nil] at hrest

theorem lexesTo_openObject : LexesTo ['{'] [.openObject] := lexesTo_of_token rfl fun _ => rfl

theorem lexesTo_closeObject : LexesTo ['}'] [.closeObject] := lexesTo_of_token rfl fun _ => rfl

theorem lexesTo_openArray : LexesTo ['['] [.openArray] := lexesTo_of_token rfl fun _ => rfl

theorem lexesTo_closeArray : LexesTo [']'] [.closeArray] := lexesTo_of_token rfl fun _ => rfl

theorem lexesTo_colon : LexesTo [':'] [.colon] := lexesTo_of_token rfl fun _ => rfl

theorem lexesTo_comma : LexesTo [','] [.comma] := lexesTo_of_token rfl fun _ => rfl

theorem lexesTo_null : LexesTo ['n', 'u', 'l', 'l'] [.null] := lexesTo_of_token rfl fun _ => rfl

/-- Every text is read back from its string. -/
theorem lexesTo_renderText (text : List Char) : LexesTo (renderText text) [.text (some text)] := by
  refine lexesTo_of_token rfl fun rest => ?_
  rw [List.append_assoc, List.singleton_append]
  change (stringBody (text.flatMap escapeChar ++ '"' :: rest)).map _ = _
  rw [stringBody_escaped, Option.map_some, joinPieces_map_char]

/-- Every number is read back together with the character that ends it. -/
theorem lexesTo_renderNat (n : Nat) {c : Char} {token : Token} (hc : c = ',' ∨ c = ']')
    (h : LexesTo [c] [token]) : LexesTo (renderNat n ++ [c]) [.number (some n), token] := by
  intro rest
  obtain ⟨d, more, hdigits⟩ := List.exists_cons_of_ne_nil (Nat.toDigits_ne_nil (b := 10) (n := n))
  have hd : d.isDigit = true := by
    refine Nat.isDigit_of_mem_toDigits (b := 10) (n := n) (by decide) (by decide) ?_
    rw [hdigits]
    exact List.mem_cons_self
  have hspace : isSpace d = false := by
    simp only [isSpace, Bool.or_eq_false_iff, beq_eq_false_iff_ne]
    refine ⟨⟨⟨?_, ?_⟩, ?_⟩, ?_⟩
    all_goals
      rintro rfl
      exact absurd hd (by decide)
  have htoken : token? d (more ++ c :: rest) = some (.number (some n), c :: rest) := by
    rw [token?_of_isDigit hd, ← List.cons_append, ← hdigits]
    change (unsigned? (renderNat n ++ c :: rest)).map _ = _
    rw [unsigned?_renderNat n hc]
    rfl
  rw [renderNat, hdigits, List.append_assoc, List.singleton_append, List.cons_append,
    tokens_cons hspace htoken, ← List.singleton_append, h, Option.map_map]
  rfl

/-- Pieces with commas between them. -/
theorem LexesTo.intercalate {α : Type} {text : α → List Char} {list : α → List Token}
    (h : ∀ a, LexesTo (text a) (list a)) (items : List α) :
    LexesTo ([','].intercalate (items.map text)) ([.comma].intercalate (items.map list)) := by
  induction items with
  | nil => exact lexesTo_nil
  | cons first rest ih =>
    cases rest with
    | nil =>
      rw [List.map_singleton, List.map_singleton, List.intercalate_singleton,
        List.intercalate_singleton]
      exact h first
    | cons next more =>
      rw [List.map_cons, List.map_cons, List.map_cons, List.map_cons, List.intercalate_cons_cons,
        List.intercalate_cons_cons]
      exact ((h first).append lexesTo_comma).append ih

end StagedSandbox.Json
