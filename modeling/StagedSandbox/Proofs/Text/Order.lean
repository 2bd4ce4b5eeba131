import Mathlib.Data.List.Lex
import StagedSandbox.Proofs.Text.Form

/-!
# The order of texts

Texts are compared character by character, and this is the order of their bytes: of two different
characters, the smaller one is encoded by the smaller bytes, whatever follows
(`Text.Utf8.encode_append_lt`, `Bytes.list_ofText_lt`).
-/

namespace StagedSandbox

namespace Text.Utf8

variable {n k : Nat} (x y : List UInt8)

theorem first_lt (h : n < k) (hk : k < 256) : UInt8.ofNat n :: x < UInt8.ofNat k :: y := by
  refine List.cons_lt_cons_iff.2 (Or.inl ?_)
  rw [UInt8.lt_iff_toNat_lt, toNat_ofNat (Nat.lt_trans h hk), toNat_ofNat hk]
  exact h

/-- The first byte of a character that has others. -/
def lead (width mark n : Nat) : List UInt8 := [UInt8.ofNat (n % width + mark)]

theorem lead_lt {width mark : Nat} (h : n < k) (hwidth : k < width) (hmark : width + mark ≤ 256) :
    lead width mark n ++ x < lead width mark k ++ y := by
  rw [lead, lead, Nat.mod_eq_of_lt (Nat.lt_trans h hwidth), Nat.mod_eq_of_lt hwidth]
  exact first_lt x y (by omega) (by omega)

/-- A tail with the last six bits, after the bytes of the others. -/
def withTail (p : Nat → List UInt8) (n : Nat) : List UInt8 := p (n / 64) ++ [tailByte n]

/-- Of two numbers, the smaller one differs in the bits before the last six, or else in these. -/
theorem withTail_lt {p : Nat → List UInt8} (h : n < k)
    (hp : n / 64 < k / 64 → ∀ x y, p (n / 64) ++ x < p (k / 64) ++ y) :
    withTail p n ++ x < withTail p k ++ y := by
  rw [withTail, withTail, List.append_assoc, List.append_assoc]
  rcases Nat.lt_or_eq_of_le (Nat.div_le_div_right (Nat.le_of_lt h) : n / 64 ≤ k / 64) with
    hlt | heq
  · exact hp hlt _ _
  · rw [heq]
    exact List.append_left_lt (first_lt x y (by omega) (by omega))

/-- The bytes of a character: a first one, and as many tails as its number takes. -/
def encoded (n : Nat) : List UInt8 :=
  if n < 0x80 then [UInt8.ofNat n]
  else if n < 0x800 then withTail (lead 32 0xc0) n
  else if n < 0x10000 then withTail (withTail (lead 16 0xe0)) n
  else withTail (withTail (withTail (lead 8 0xf0))) n

theorem utf8EncodeChar_eq_encoded (h : n.isValidChar) :
    String.utf8EncodeChar (Char.ofNat n) = encoded n := by
  rw [utf8EncodeChar_ofNat h, encoded]
  simp only [withTail, lead, Nat.div_div_eq_div_mul, List.cons_append, List.nil_append,
    Nat.lt_succ_iff]

/-- Characters of different lengths differ in their first byte, those of one length in their first
byte or in one of their tails. -/
theorem encoded_append_lt (h : n < k) (hk : k < 0x110000) : encoded n ++ x < encoded k ++ y := by
  rw [encoded, encoded]
  by_cases h₁ : k < 0x80
  · rw [if_pos h₁, if_pos (by omega)]
    exact first_lt x y h (by omega)
  · rw [if_neg h₁]
    by_cases h₂ : k < 0x800
    · rw [if_pos h₂]
      split_ifs
      · exact first_lt _ _ (by omega) (by omega)
      · exact withTail_lt x y h fun h x y => lead_lt x y h (by omega) (by decide)
      all_goals omega
    · rw [if_neg h₂]
      by_cases h₃ : k < 0x10000
      · rw [if_pos h₃]
        split_ifs
        · exact first_lt _ _ (by omega) (by omega)
        · exact first_lt _ _ (by omega) (by omega)
        · exact withTail_lt x y h fun h x y => withTail_lt x y h fun h x y =>
            lead_lt x y h (by omega) (by decide)
        · omega
      · rw [if_neg h₃]
        split_ifs
        · exact first_lt _ _ (by omega) (by omega)
        · exact first_lt _ _ (by omega) (by omega)
        · exact first_lt _ _ (by omega) (by omega)
        · exact withTail_lt x y h fun h x y => withTail_lt x y h fun h x y =>
            withTail_lt x y h fun h x y => lead_lt x y h (by omega) (by decide)

/-- Of two different characters, the smaller one has the smaller bytes, whatever follows. -/
theorem encode_append_lt {a b : Char} (h : a < b) :
    String.utf8EncodeChar a ++ x < String.utf8EncodeChar b ++ y := by
  have hvalid (c : Char) : c.toNat.isValidChar := c.valid
  rw [← Char.ofNat_toNat a, ← Char.ofNat_toNat b, utf8EncodeChar_eq_encoded (hvalid a),
    utf8EncodeChar_eq_encoded (hvalid b)]
  refine encoded_append_lt x y h ?_
  rcases hvalid b with hlow | ⟨-, hhigh⟩
  · omega
  · exact hhigh

theorem flatMap_encode_lt {a b : List Char} (h : a < b) :
    a.flatMap String.utf8EncodeChar < b.flatMap String.utf8EncodeChar := by
  induction a generalizing b with
  | nil =>
    cases b with
    | nil => exact absurd h (List.lt_irrefl _)
    | cons c rest =>
      obtain ⟨byte, bytes, hc⟩ := List.exists_cons_of_ne_nil (String.utf8EncodeChar_ne_nil (c := c))
      rw [List.flatMap_cons, hc]
      exact List.nil_lt_cons _ _
  | cons c rest ih =>
    cases b with
    | nil => exact absurd h (List.not_lt_nil _)
    | cons d more =>
      rw [List.flatMap_cons, List.flatMap_cons]
      rcases List.cons_lt_cons_iff.1 h with hlt | ⟨rfl, hlt⟩
      · exact encode_append_lt _ _ hlt
      · exact List.append_left_lt (ih hlt)

end Text.Utf8

/-- Texts are in the order of their bytes. -/
theorem Bytes.list_ofText_lt {a b : String} (h : a < b) : (ofText a).list < (ofText b).list := by
  rw [list_ofText, list_ofText]
  exact Text.Utf8.flatMap_encode_lt h

end StagedSandbox
