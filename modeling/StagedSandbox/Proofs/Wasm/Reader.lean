import Mathlib.Data.List.TakeDrop
import StagedSandbox.Proofs.Object.Text
import StagedSandbox.Wasm.Text

/-!
# Reading module texts

A text that adds items to the list that is open adds the same ones wherever it stands, so that a
text is read part by part (`Reader.Adds`). Numbers and bytes are read back from the way they are
written (`word?_signed`, `Reader.feed_escapes`).
-/

namespace StagedSandbox.Wasm

/-! ### Parts of a text -/

namespace Reader

variable {items : List Tree} {outer : List (List Tree)}

theorem feed_append (r : Reader) (front back : List Char) :
    r.feed (front ++ back) = (r.feed front).bind fun r => r.feed back := List.foldlM_append

/-- A text that starts and ends between pieces adds items to the innermost list that is open. -/
def Adds (text : List Char) (added : List Tree) : Prop :=
  ∀ items outer, feed ⟨items, outer, .between⟩ text = some ⟨added.reverse ++ items, outer, .between⟩

theorem Adds.nil : Adds [] [] := fun _ _ => rfl

theorem Adds.append {front back : List Char} {first later : List Tree} (h : Adds front first)
    (h' : Adds back later) : Adds (front ++ back) (first ++ later) := by
  intro items outer
  rw [feed_append, h, Option.bind_some, h', List.reverse_append, List.append_assoc]

theorem Adds.flatMap {α : Type} {list : List α} {text : α → List Char} {added : α → List Tree}
    (h : ∀ a ∈ list, Adds (text a) (added a)) : Adds (list.flatMap text) (list.flatMap added) := by
  induction list with
  | nil => exact Adds.nil
  | cons a rest ih =>
    obtain ⟨hfirst, hrest⟩ := List.forall_mem_cons.mp h
    rw [List.flatMap_cons, List.flatMap_cons]
    exact hfirst.append (ih hrest)

/-! ### Words and strings -/

theorem feed_wordRest {text soFar : List Char} (h : ∀ c ∈ text, isWordChar c = true) :
    feed ⟨items, outer, .word soFar⟩ text = some ⟨items, outer, .word (text.reverse ++ soFar)⟩ := by
  induction text generalizing soFar with
  | nil => rfl
  | cons c rest ih =>
    obtain ⟨hc, hrest⟩ := List.forall_mem_cons.mp h
    have hstep : step ⟨items, outer, .word soFar⟩ c = some ⟨items, outer, .word (c :: soFar)⟩ :=
      if_pos hc
    rw [feed, List.foldlM_cons, hstep]
    change feed ⟨items, outer, .word (c :: soFar)⟩ rest = _
    rw [ih hrest, List.reverse_cons, List.append_assoc, List.singleton_append]

/-- A word is open until something else comes. -/
theorem feed_word {text : List Char} (hne : text ≠ []) (h : ∀ c ∈ text, isWordChar c = true) :
    feed ⟨items, outer, .between⟩ text = some ⟨items, outer, .word text.reverse⟩ := by
  obtain ⟨c, rest, rfl⟩ := List.exists_cons_of_ne_nil hne
  obtain ⟨hc, hrest⟩ := List.forall_mem_cons.mp h
  have hstep : step ⟨items, outer, .between⟩ c = some ⟨items, outer, .word [c]⟩ := if_pos hc
  rw [feed, List.foldlM_cons, hstep]
  change feed ⟨items, outer, .word [c]⟩ rest = _
  rw [feed_wordRest hrest, List.reverse_cons]

/-- The end of a list ends the word before it. -/
theorem feed_close (opened : List Tree) (soFar : List Char) :
    feed ⟨opened, items :: outer, .word soFar⟩ [')'] =
      some ⟨.list (.word (String.ofList soFar.reverse) :: opened).reverse :: items, outer,
        .between⟩ := by
  have hend : isWordChar ')' = false := rfl
  simp only [feed, List.foldlM_cons, List.foldlM_nil, step, hend, separate]
  rfl

theorem step_escape {soFar : List UInt8} {c : Char} {high : Nat}
    (h : Text.Hex.value? (UInt8.ofNat c.toNat) = some high) :
    step ⟨items, outer, .escape soFar⟩ c = some ⟨items, outer, .digit soFar high⟩ := by
  rw [step, h]
  rfl

theorem step_digit {soFar : List UInt8} {c : Char} {high low : Nat}
    (h : Text.Hex.value? (UInt8.ofNat c.toNat) = some low) :
    step ⟨items, outer, .digit soFar high⟩ c =
      some ⟨items, outer, .string (UInt8.ofNat (16 * high + low) :: soFar)⟩ := by
  rw [step, h]
  rfl

/-- The bytes of a string are read back from their escapes. -/
theorem feed_escapes (bytes soFar : List UInt8) :
    feed ⟨items, outer, .string soFar⟩ (bytes.flatMap fun b => '\\' :: Text.Hex.encodeByte b) =
      some ⟨items, outer, .string (bytes.reverse ++ soFar)⟩ := by
  induction bytes generalizing soFar with
  | nil => rfl
  | cons b rest ih =>
    have hb := b.toNat_lt
    have hhigh := Text.Hex.value?_digit (show b.toNat / 16 < 16 by omega)
    have hlow := Text.Hex.value?_digit (show b.toNat % 16 < 16 by omega)
    have hbyte : UInt8.ofNat (16 * (b.toNat / 16) + b.toNat % 16) = b := by
      rw [Nat.div_add_mod, UInt8.ofNat_toNat]
    have hmark : step ⟨items, outer, .string soFar⟩ '\\' = some ⟨items, outer, .escape soFar⟩ := rfl
    have hfirst : feed ⟨items, outer, .string soFar⟩ ('\\' :: Text.Hex.encodeByte b) =
        some ⟨items, outer, .string (b :: soFar)⟩ := by
      simp only [feed, Text.Hex.encodeByte, List.foldlM_cons, List.foldlM_nil, hmark,
        Option.bind_eq_bind, Option.bind_some, step_escape hhigh, step_digit hlow, hbyte,
        Option.pure_def]
    rw [List.flatMap_cons, feed_append, hfirst, Option.bind_some, ih, List.reverse_cons,
      List.append_assoc, List.singleton_append]

end Reader

/-! ### Numbers -/

theorem isWordChar_of_isDigit {c : Char} (h : c.isDigit = true) : Reader.isWordChar c = true := by
  simp [Reader.isWordChar, Char.isAlphanum, h]

/-- A number is a word, with its sign if it has one. -/
theorem feed_signed (n : Int) (items : List Tree) (outer : List (List Tree)) :
    Reader.feed ⟨items, outer, .between⟩ (Text.signed n).toList =
      some ⟨items, outer, .word (Text.signed n).toList.reverse⟩ := by
  refine Reader.feed_word (Text.signed_ne_nil n) fun c hc => ?_
  obtain rfl | hdigit := Text.mem_signed hc
  · decide
  · exact isWordChar_of_isDigit hdigit

theorem feed_decimal (n : Nat) (items : List Tree) (outer : List (List Tree)) :
    Reader.feed ⟨items, outer, .between⟩ (Text.decimal n).toList =
      some ⟨items, outer, .word (Text.decimal n).toList.reverse⟩ := feed_signed n items outer

theorem natural?_decimal (n : Nat) : natural? (Text.decimal n).toList = some n := by
  have hdigits : (Text.decimal n).toList.all Char.isDigit = true :=
    List.all_eq_true.mpr fun c => Text.isDigit_of_mem_decimal
  rw [natural?, if_pos ⟨Text.decimal_ne_nil n, hdigits⟩, ← Nat.ofDigitChars_eq_foldl,
    Text.ofDigitChars_decimal]

/-- A word is read back from its number, -/
theorem word?_decimal {n : Nat} (h : n < UInt32.size) :
    word? (Text.decimal n).toList = some (UInt32.ofNat n) := by
  have hnumber := natural?_decimal n
  rw [word?.eq_def]
  split
  · next digits hdigits =>
    have hsign : '-' ∈ (Text.decimal n).toList := hdigits ▸ List.mem_cons_self
    exact absurd (Text.isDigit_of_mem_decimal hsign) (by decide)
  · rw [hnumber]
    exact if_pos h

/-- and so is one that stands for a number of either sign. -/
theorem word?_signed (n : Int32) :
    word? (Text.signed n.toInt).toList = some (UInt32.ofInt n.toInt) := by
  have hlow := n.le_toInt
  have hhigh := n.toInt_lt
  cases hn : n.toInt with
  | ofNat m =>
    rw [hn] at hhigh
    have hm : m < UInt32.size := (Int.ofNat_lt.mp hhigh).trans (by decide)
    have hword : (Int.ofNat m % 2 ^ 32).toNat = m := by
      rw [Int.ofNat_eq_natCast] at hhigh ⊢
      omega
    rw [Text.signed, word?_decimal hm, UInt32.ofInt, hword]
  | negSucc m =>
    rw [hn] at hlow
    have hm : m + 1 ≤ 0x80000000 := by omega
    have hlist : (Text.signed (.negSucc m)).toList = '-' :: (Text.decimal (m + 1)).toList := by
      rw [Text.signed, String.toList_append]
      rfl
    rw [hlist, word?, natural?_decimal, Option.bind_some, if_pos hm]
    rfl

end StagedSandbox.Wasm
