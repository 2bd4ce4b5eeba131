import Mathlib.Data.List.Basic
import StagedSandbox.Proofs.Text.Utf8

/-!
# Bytes that encode a character

`form` knows the encodings of characters and their beginnings, no more and no less
(`form_eq_char_iff`, `form_eq_start_iff`).
-/

namespace StagedSandbox.Text.Utf8

/-! ### Bytes as numbers -/

theorem between_iff_toNat {low b high : UInt8} :
    (low ≤ b && b ≤ high) = true ↔ low.toNat ≤ b.toNat ∧ b.toNat ≤ high.toNat := by
  simp [UInt8.le_iff_toNat_le]

theorem isTail_iff_toNat {b : UInt8} : isTail b = true ↔ 0x80 ≤ b.toNat ∧ b.toNat ≤ 0xbf :=
  between_iff_toNat

theorem isSecond_iff_toNat {a b : UInt8} :
    isSecond a b = true ↔
      if a.toNat = 0xe0 then 0xa0 ≤ b.toNat ∧ b.toNat ≤ 0xbf
      else if a.toNat = 0xed then 0x80 ≤ b.toNat ∧ b.toNat ≤ 0x9f
      else if a.toNat = 0xf0 then 0x90 ≤ b.toNat ∧ b.toNat ≤ 0xbf
      else if a.toNat = 0xf4 then 0x80 ≤ b.toNat ∧ b.toNat ≤ 0x8f
      else 0x80 ≤ b.toNat ∧ b.toNat ≤ 0xbf := by
  have h := isSecond_ofNat a.toNat_lt b.toNat_lt
  simpa only [UInt8.ofNat_toNat] using h

/-- Every second byte continues a character. -/
theorem isTail_of_isSecond {a b : UInt8} (h : isSecond a b = true) : isTail b = true := by
  rw [isSecond_iff_toNat] at h
  rw [isTail_iff_toNat]
  split_ifs at h <;> omega

/-! ### From the form to the encoding -/

theorem toNat_val_ofNat {n : Nat} (h : n.isValidChar) : (Char.ofNat n).val.toNat = n := by
  rw [Char.ofNat, dif_pos h]
  rfl

theorem eq_tailByte {b : UInt8} (h : isTail b = true) (k : Nat) :
    b = tailByte (k * 64 + payload b) := by
  rw [isTail_iff_toNat] at h
  rw [← UInt8.toNat_inj, tailByte, toNat_ofNat (by omega), payload]
  omega

theorem utf8EncodeChar_ofNat {n : Nat} (h : n.isValidChar) :
    String.utf8EncodeChar (Char.ofNat n) =
      if n ≤ 0x7f then [UInt8.ofNat n]
      else if n ≤ 0x7ff then [UInt8.ofNat (n / 64 % 32 + 0xc0), tailByte n]
      else if n ≤ 0xffff then
        [UInt8.ofNat (n / 4096 % 16 + 0xe0), tailByte (n / 64), tailByte n]
      else
        [UInt8.ofNat (n / 262144 % 8 + 0xf0), tailByte (n / 4096), tailByte (n / 64),
          tailByte n] := by
  rw [String.utf8EncodeChar, toNat_val_ofNat h]
  rfl

theorem isValidChar_of_lt {n : Nat} (h : n < 0xd800) : n.isValidChar := Or.inl h

theorem eq_ofNat {a : UInt8} {n : Nat} (h : a.toNat = n) : a = UInt8.ofNat n := by
  rw [← h, UInt8.ofNat_toNat]

theorem payload_lt (b : UInt8) : payload b < 64 := Nat.mod_lt _ (by decide)

theorem encode_one {a : UInt8} (h : a.toNat < 0x80) :
    String.utf8EncodeChar (Char.ofNat a.toNat) = [a] := by
  rw [utf8EncodeChar_ofNat (isValidChar_of_lt (by omega)), if_pos (by omega), UInt8.ofNat_toNat]

theorem encode_two {a b : UInt8} (hlow : 0xc2 ≤ a.toNat) (hhigh : a.toNat ≤ 0xdf)
    (hb : isTail b = true) :
    String.utf8EncodeChar (Char.ofNat (a.toNat % 32 * 64 + payload b)) = [a, b] := by
  have hlt := payload_lt b
  have hfirst : a = UInt8.ofNat ((a.toNat % 32 * 64 + payload b) / 64 % 32 + 0xc0) :=
    eq_ofNat (by omega)
  rw [utf8EncodeChar_ofNat (isValidChar_of_lt (by omega)), if_neg (by omega), if_pos (by omega),
    ← hfirst, ← eq_tailByte hb]

theorem encode_three {a b d : UInt8} (hlow : 0xe0 ≤ a.toNat) (hhigh : a.toNat ≤ 0xef)
    (hb : isSecond a b = true) (hd : isTail d = true) :
    String.utf8EncodeChar (Char.ofNat ((a.toNat % 16 * 64 + payload b) * 64 + payload d)) =
      [a, b, d] := by
  have hlt := payload_lt b
  have hlt' := payload_lt d
  have htail := isTail_of_isSecond hb
  -- the second byte shuts out overlong forms and surrogates
  have hpayload : payload b = b.toNat % 64 := rfl
  have hrange : (a.toNat = 0xe0 → 0x20 ≤ payload b) ∧ (a.toNat = 0xed → payload b < 0x20) := by
    rw [isSecond_iff_toNat] at hb
    split_ifs at hb <;> omega
  have hvalid : ((a.toNat % 16 * 64 + payload b) * 64 + payload d).isValidChar := by
    by_cases hless : a.toNat < 0xed
    · exact Or.inl (by omega)
    · by_cases heq : a.toNat = 0xed
      · exact Or.inl (by omega)
      · exact Or.inr (by omega)
  have hfirst : a = UInt8.ofNat
      (((a.toNat % 16 * 64 + payload b) * 64 + payload d) / 4096 % 16 + 0xe0) :=
    eq_ofNat (by omega)
  have hsecond : ((a.toNat % 16 * 64 + payload b) * 64 + payload d) / 64 =
      a.toNat % 16 * 64 + payload b := by omega
  rw [utf8EncodeChar_ofNat hvalid, if_neg (by omega), if_neg (by omega), if_pos (by omega),
    ← hfirst, hsecond, ← eq_tailByte htail, ← eq_tailByte hd]

theorem encode_four {a b d e : UInt8} (hlow : 0xf0 ≤ a.toNat) (hhigh : a.toNat ≤ 0xf4)
    (hb : isSecond a b = true) (hd : isTail d = true) (he : isTail e = true) :
    String.utf8EncodeChar
        (Char.ofNat (((a.toNat % 8 * 64 + payload b) * 64 + payload d) * 64 + payload e)) =
      [a, b, d, e] := by
  have hlt := payload_lt b
  have hlt' := payload_lt d
  have hlt'' := payload_lt e
  have htail := isTail_of_isSecond hb
  -- the second byte shuts out overlong forms and numbers beyond the last code point
  have hpayload : payload b = b.toNat % 64 := rfl
  have hrange : (a.toNat = 0xf0 → 0x10 ≤ payload b) ∧ (a.toNat = 0xf4 → payload b < 0x10) := by
    rw [isSecond_iff_toNat] at hb
    split_ifs at hb <;> omega
  have hvalid :
      (((a.toNat % 8 * 64 + payload b) * 64 + payload d) * 64 + payload e).isValidChar :=
    Or.inr (by omega)
  have hfirst : a = UInt8.ofNat
      ((((a.toNat % 8 * 64 + payload b) * 64 + payload d) * 64 + payload e) / 262144 % 8 +
        0xf0) :=
    eq_ofNat (by omega)
  have hsecond : (((a.toNat % 8 * 64 + payload b) * 64 + payload d) * 64 + payload e) / 4096 =
      a.toNat % 8 * 64 + payload b := by omega
  have hthird : (((a.toNat % 8 * 64 + payload b) * 64 + payload d) * 64 + payload e) / 64 =
      (a.toNat % 8 * 64 + payload b) * 64 + payload d := by omega
  rw [utf8EncodeChar_ofNat hvalid, if_neg (by omega), if_neg (by omega), if_neg (by omega),
    ← hfirst, hsecond, hthird, ← eq_tailByte htail, ← eq_tailByte hd, ← eq_tailByte he]

/-- A sequence that has the form of a character is its encoding. -/
theorem eq_encode_of_form {bytes : List UInt8} {c : Char} (h : form bytes = .char c) :
    bytes = String.utf8EncodeChar c := by
  unfold form at h
  split at h
  · next a =>
    split at h
    · next ha =>
      obtain rfl := Form.char.inj h
      exact (encode_one (UInt8.lt_iff_toNat_lt.1 ha)).symm
    · split at h <;> cases h
  · next a b =>
    split at h
    · next hform =>
      obtain rfl := Form.char.inj h
      rw [Bool.and_eq_true, between_iff_toNat] at hform
      exact (encode_two hform.1.1 hform.1.2 hform.2).symm
    · split at h <;> cases h
  · next a b d =>
    split at h
    · next hform =>
      obtain rfl := Form.char.inj h
      rw [Bool.and_eq_true, Bool.and_eq_true, between_iff_toNat] at hform
      exact (encode_three hform.1.1.1 hform.1.1.2 hform.1.2 hform.2).symm
    · split at h <;> cases h
  · next a b d e =>
    split at h
    · next hform =>
      obtain rfl := Form.char.inj h
      rw [Bool.and_eq_true, Bool.and_eq_true, Bool.and_eq_true, between_iff_toNat] at hform
      exact (encode_four hform.1.1.1.1 hform.1.1.1.2 hform.1.1.2 hform.1.2 hform.2).symm
    · cases h
  · cases h

theorem form_eq_char_iff {bytes : List UInt8} {c : Char} :
    form bytes = .char c ↔ bytes = String.utf8EncodeChar c := by
  constructor
  · exact eq_encode_of_form
  · rintro rfl
    exact (form_utf8EncodeChar c).1

/-! ### Beginnings of encodings -/

/-- Bytes that begin the encoding of some character and do not complete it. -/
def Begins (bytes : List UInt8) : Prop :=
  bytes ≠ [] ∧ ∃ c more, more ≠ [] ∧ bytes ++ more = String.utf8EncodeChar c

theorem length_le_of_form {bytes : List UInt8} (h : form bytes = .start) : bytes.length ≤ 3 := by
  unfold form at h
  split at h
  · simp
  · simp
  · simp
  · split at h <;> cases h
  · cases h

/-- A byte that may follow the first byte of a three- or four-byte character. -/
def leastSecond (first : UInt8) : UInt8 :=
  if first = 0xe0 then 0xa0 else if first = 0xf0 then 0x90 else 0x80

theorem isSecond_leastSecond (first : UInt8) : isSecond first (leastSecond first) = true := by
  unfold isSecond leastSecond
  split_ifs <;> simp_all [isTail]

theorem isTail_leastTail : isTail 0x80 = true := by decide

/-- The second byte depends on the first one, which may ask for a character of any length. -/
theorem exists_form_pair {a : UInt8} (h : form [a] = .start) :
    ∃ b, form [a, b] ≠ .illFormed := by
  rw [form] at h
  split at h
  · cases h
  split at h
  · next hlead =>
    rw [between_iff_toNat] at hlead
    by_cases htwo : a.toNat ≤ 0xdf
    · have hrange : (0xc2 ≤ a && a ≤ 0xdf) = true := between_iff_toNat.2 ⟨hlead.1, htwo⟩
      refine ⟨0x80, ?_⟩
      simp [form, hrange, isTail_leastTail]
    · have hnot : ¬ (0xc2 ≤ a && a ≤ 0xdf) = true := fun hr => htwo (between_iff_toNat.1 hr).2
      have hrange : (0xe0 ≤ a && a ≤ 0xf4) = true :=
        between_iff_toNat.2 ⟨Nat.lt_of_not_le htwo, hlead.2⟩
      refine ⟨leastSecond a, ?_⟩
      simp [form, hnot, hrange, isSecond_leastSecond]
  · cases h

theorem form_triple {a b : UInt8} (h : form [a, b] = .start) :
    form [a, b, 0x80] ≠ .illFormed := by
  rw [form] at h
  split at h
  · cases h
  split at h
  · next hlead =>
    rw [Bool.and_eq_true, between_iff_toNat] at hlead
    obtain ⟨⟨hlow, hhigh⟩, hsecond⟩ := hlead
    by_cases hthree : a.toNat ≤ 0xef
    · have hrange : (0xe0 ≤ a && a ≤ 0xef) = true := between_iff_toNat.2 ⟨hlow, hthree⟩
      simp [form, hrange, hsecond, isTail_leastTail]
    · have hnot : ¬ (0xe0 ≤ a && a ≤ 0xef) = true := fun hr => hthree (between_iff_toNat.1 hr).2
      have hrange : (0xf0 ≤ a && a ≤ 0xf4) = true :=
        between_iff_toNat.2 ⟨Nat.lt_of_not_le hthree, hhigh⟩
      simp [form, hnot, hrange, hsecond, isTail_leastTail]
  · cases h

theorem form_quadruple {a b d : UInt8} (h : form [a, b, d] = .start) :
    form [a, b, d, 0x80] ≠ .illFormed := by
  rw [form] at h
  split at h
  · cases h
  split at h
  · next hlead =>
    rw [form, hlead, isTail_leastTail, Bool.and_self, if_pos rfl]
    intro hform
    cases hform
  · cases h

/-- A beginning can be continued by one more byte. -/
theorem exists_form_concat {bytes : List UInt8} (h : form bytes = .start) :
    ∃ b, form (bytes ++ [b]) ≠ .illFormed := by
  match bytes with
  | [] => cases h
  | [a] => exact exists_form_pair h
  | [a, b] => exact ⟨0x80, form_triple h⟩
  | [a, b, d] => exact ⟨0x80, form_quadruple h⟩
  | _ :: _ :: _ :: _ :: _ => exact absurd (length_le_of_form h) (by simp)

/-- What has the form of a start begins the encoding of some character. -/
theorem exists_encode_of_form {bytes : List UInt8} (h : form bytes = .start) :
    ∃ c more, more ≠ [] ∧ bytes ++ more = String.utf8EncodeChar c := by
  obtain ⟨b, hb⟩ := exists_form_concat h
  cases hnext : form (bytes ++ [b]) with
  | char c => exact ⟨c, [b], by simp, eq_encode_of_form hnext⟩
  | start =>
    obtain ⟨c, more, -, hmore⟩ := exists_encode_of_form hnext
    refine ⟨c, b :: more, by simp, ?_⟩
    rw [← hmore, List.append_assoc]
    rfl
  | illFormed => exact absurd hnext hb
termination_by 4 - bytes.length
decreasing_by
  have := length_le_of_form h
  simp only [List.length_append, List.length_singleton]
  omega

theorem form_eq_start_iff {bytes : List UInt8} : form bytes = .start ↔ Begins bytes := by
  constructor
  · intro h
    refine ⟨?_, exists_encode_of_form h⟩
    rintro rfl
    cases h
  · rintro ⟨hne, c, more, hmore, h⟩
    exact form_of_append_eq_encode h hne hmore

theorem Begins.length_le {bytes : List UInt8} (h : Begins bytes) : bytes.length ≤ 3 :=
  length_le_of_form (form_eq_start_iff.2 h)

/-- A shorter beginning of a beginning is again one. -/
theorem Begins.of_append {bytes more : List UInt8} (h : Begins (bytes ++ more))
    (hne : bytes ≠ []) : Begins bytes := by
  obtain ⟨-, c, last, hlast, h⟩ := h
  refine ⟨hne, c, more ++ last, by simp [hlast], ?_⟩
  rw [← h, List.append_assoc]

theorem not_begins_encode (c : Char) : ¬ Begins (String.utf8EncodeChar c) := by
  intro h
  have hchar := (form_utf8EncodeChar c).1
  rw [form_eq_start_iff.2 h] at hchar
  cases hchar

/-- Once a form is broken, no further byte mends it. -/
theorem form_of_isPrefix {part longer : List UInt8} (h : part <+: longer) (hpart : part ≠ [])
    (hlonger : form longer ≠ .illFormed) : form part ≠ .illFormed := by
  obtain ⟨more, rfl⟩ := h
  by_cases hmore : more = []
  · simpa [hmore] using hlonger
  cases hform : form (part ++ more) with
  | char c => simp [form_of_append_eq_encode (form_eq_char_iff.1 hform) hpart hmore]
  | start => simp [form_eq_start_iff.2 ((form_eq_start_iff.1 hform).of_append hpart)]
  | illFormed => exact absurd hform hlonger

end StagedSandbox.Text.Utf8
