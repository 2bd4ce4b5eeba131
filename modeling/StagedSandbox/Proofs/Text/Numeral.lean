import Mathlib.Algebra.Group.Nat.Defs
import StagedSandbox.Proofs.Text.Utf8
import StagedSandbox.Text.Hex

/-!
# Written numbers and bytes

Reading a number that was written in decimal gives the number, and reading bytes that were written
as hexadecimal digits gives the bytes.
-/

namespace StagedSandbox.Text

/-! ### Decimal numbers -/

theorem toList_decimal (n : Nat) : (decimal n).toList = Nat.toDigits 10 n := String.toList_ofList

theorem isDigit_of_mem_decimal {n : Nat} {c : Char} (h : c ∈ (decimal n).toList) :
    c.isDigit = true := by
  rw [toList_decimal] at h
  exact Nat.isDigit_of_mem_toDigits (by decide) (by decide) h

theorem decimal_ne_nil (n : Nat) : (decimal n).toList ≠ [] := by
  rw [toList_decimal]
  exact Nat.toDigits_ne_nil

theorem ofDigitChars_decimal (n : Nat) : Nat.ofDigitChars 10 (decimal n).toList 0 = n := by
  rw [toList_decimal, Nat.ofDigitChars_ten_toDigits]

namespace Integer

theorem le_ofDigitChars (soFar : Nat) (text : List Char) :
    soFar ≤ Nat.ofDigitChars 10 text soFar := by
  induction text generalizing soFar with
  | nil => exact Nat.le_of_eq Nat.ofDigitChars_nil.symm
  | cons c rest ih =>
    rw [Nat.ofDigitChars_cons]
    have := ih (10 * soFar + (c.toNat - '0'.toNat))
    omega

/-- Digits are read to the end as long as the whole number is within the bound. -/
theorem digits_of_isDigit {bound : Nat} (beyond : Error) {soFar : Nat} {text : List Char}
    (hdigits : ∀ c ∈ text, c.isDigit = true) (hbound : Nat.ofDigitChars 10 text soFar ≤ bound) :
    digits bound beyond soFar text = .ok (Nat.ofDigitChars 10 text soFar) := by
  induction text generalizing soFar with
  | nil => rfl
  | cons c rest ih =>
    rw [Nat.ofDigitChars_cons] at hbound ⊢
    have hc : digit? c = some (c.toNat - '0'.toNat) := by
      rw [digit?, if_pos (hdigits c List.mem_cons_self)]
    have hle := le_ofDigitChars (10 * soFar + (c.toNat - '0'.toNat)) rest
    rw [digits, hc]
    simp only
    rw [if_pos (Nat.le_trans hle hbound)]
    exact ih (fun d hd => hdigits d (List.mem_cons_of_mem _ hd)) hbound

theorem magnitude_decimal {bound n : Nat} (beyond : Error) (h : n ≤ bound) :
    magnitude bound beyond (decimal n).toList = .ok n := by
  rw [magnitude, if_neg (by simpa using decimal_ne_nil n),
    digits_of_isDigit beyond (fun c => isDigit_of_mem_decimal) (by rwa [ofDigitChars_decimal]),
    ofDigitChars_decimal]

/-- A number without a sign. -/
theorem read_of_isDigit (bits : Nat) {text : List Char} (hne : text ≠ [])
    (h : ∀ c ∈ text, c.isDigit = true) :
    read bits text = (magnitude (signBit bits - 1) .tooLarge text).map Int.ofNat := by
  cases text with
  | nil => exact absurd rfl hne
  | cons c rest =>
    have hdigit := h c List.mem_cons_self
    unfold read
    split
    · next heq => exact absurd heq (by simp)
    · next heq =>
      obtain ⟨rfl, -⟩ := List.cons.inj heq
      exact absurd hdigit (by decide)
    · next heq =>
      obtain ⟨rfl, -⟩ := List.cons.inj heq
      exact absurd hdigit (by decide)
    · rfl

/-- Reading what was written gives every number of the range back. -/
theorem read_signed {bits : Nat} {n : Int} (hlow : -Int.ofNat (signBit bits) ≤ n)
    (hhigh : n < Int.ofNat (signBit bits)) : read bits (signed n).toList = .ok n := by
  cases n with
  | ofNat n =>
    have h : n ≤ signBit bits - 1 := Nat.le_pred_of_lt (Int.ofNat_lt.1 hhigh)
    rw [signed, read_of_isDigit bits (decimal_ne_nil n) (fun c => isDigit_of_mem_decimal),
      magnitude_decimal _ h]
    rfl
  | negSucc n =>
    have h : n + 1 ≤ signBit bits := Int.ofNat_le.1 (Int.neg_le_neg_iff.1 hlow)
    have hlist : (signed (.negSucc n)).toList = '-' :: (decimal (n + 1)).toList := by
      rw [signed, String.toList_append]
      rfl
    rw [hlist, read, magnitude_decimal _ h]
    rfl

/-- Every exit code is read back. -/
theorem read_signed_toInt (code : Int32) : read 32 (signed code.toInt).toList = .ok code.toInt :=
  @read_signed 32 code.toInt code.le_toInt code.toInt_lt

end Integer

/-! ### Hexadecimal bytes -/

/-- A text of one-byte characters is encoded by their numbers. -/
theorem list_ofText_of_ascii {text : List Char} (h : ∀ c ∈ text, c.toNat < 0x80) :
    (Bytes.ofText (String.ofList text)).list = text.map fun c => UInt8.ofNat c.toNat := by
  rw [Bytes.list_ofText, String.toList_ofList]
  induction text with
  | nil => rfl
  | cons c rest ih =>
    have hc : c.val.toNat ≤ 0x7f := Nat.le_of_lt_succ (h c List.mem_cons_self)
    have hbyte : String.utf8EncodeChar c = [UInt8.ofNat c.toNat] := if_pos hc
    rw [List.flatMap_cons, ih fun d hd => h d (List.mem_cons_of_mem _ hd), hbyte]
    rfl

namespace Hex

theorem toNat_digit_lt {n : Nat} (h : n < 16) : (digit n).toNat < 0x80 := by
  have : ∀ n : Fin 16, (digit n).toNat < 0x80 := by decide
  exact this ⟨n, h⟩

/-- No digit is blank, and none is a separator of the written forms. -/
theorem mem_encode {c : Char} {bytes : List UInt8} (h : c ∈ encode bytes) :
    ∃ n < 16, c = digit n := by
  obtain ⟨b, -, hc⟩ := List.mem_flatMap.1 h
  have hb := b.toNat_lt
  simp only [encodeByte, List.mem_cons, List.not_mem_nil, or_false] at hc
  obtain rfl | rfl := hc
  · exact ⟨b.toNat / 16, by omega, rfl⟩
  · exact ⟨b.toNat % 16, by omega, rfl⟩

theorem decodePairs_encode (position : Nat) (bytes : List UInt8) :
    decodePairs position ((encode bytes).map fun c => UInt8.ofNat c.toNat) = .ok bytes := by
  induction bytes generalizing position with
  | nil => rfl
  | cons b rest ih =>
    have hb := b.toNat_lt
    have hjoin : 16 * (b.toNat / 16) + b.toNat % 16 = b.toNat := by omega
    rw [encode_cons, List.map_cons, List.map_cons, decodePairs, value?_digit (by omega),
      value?_digit (by omega)]
    simp only [ih, hjoin, UInt8.ofNat_toNat, Except.map]

/-- Reading the digits of bytes gives the bytes. -/
theorem decode_encode (bytes : List UInt8) :
    decode ((encode bytes).map fun c => UInt8.ofNat c.toNat) = .ok bytes := by
  have heven : ¬((encode bytes).map fun c => UInt8.ofNat c.toNat).length % 2 = 1 := by
    rw [List.length_map, length_encode]
    omega
  rw [decode, if_neg heven, decodePairs_encode]

theorem decode_ofText_encode (bytes : List UInt8) :
    decode (Bytes.ofText (String.ofList (encode bytes))).list = .ok bytes := by
  have hascii : ∀ c ∈ encode bytes, c.toNat < 0x80 := by
    intro c hc
    obtain ⟨n, hn, rfl⟩ := mem_encode hc
    exact toNat_digit_lt hn
  rw [list_ofText_of_ascii hascii, decode_encode]

end Hex

end StagedSandbox.Text
