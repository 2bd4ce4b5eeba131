import Mathlib.Data.List.Basic
import StagedSandbox.Proofs.Bytes
import StagedSandbox.Text.Utf8

/-!
# UTF-8 text through the decoder

A chunk is read from one defect to the next, which comes to the same as reading it byte by byte
(`decode_eq_feed_append`). The encoding of a text, read when nothing is held back, gives the text
and again nothing held back.
-/

namespace StagedSandbox.Text.Utf8

/-! ### Byte by byte -/

/-- What was read of a stream, and the bytes held back. -/
structure Decoder where
  /-- The characters read so far, the last one first. -/
  read : List Char := []
  held : List UInt8 := []
  deriving DecidableEq, Repr

/-- Take in one byte. Bytes held back that it does not continue are replaced. -/
def Decoder.feed (d : Decoder) (b : UInt8) : Decoder :=
  match form (d.held ++ [b]) with
  | .char c => ⟨c :: d.read, []⟩
  | .start => ⟨d.read, d.held ++ [b]⟩
  | .illFormed =>
    match d.held with
    | [] => ⟨replacement :: d.read, []⟩
    | _ :: _ =>
      match form [b] with
      | .char c => ⟨c :: replacement :: d.read, []⟩
      | .start => ⟨replacement :: d.read, [b]⟩
      | .illFormed => ⟨replacement :: replacement :: d.read, []⟩

/-- The text that bytes complete after those held back, and the bytes held back then. -/
def feed (held bytes : List UInt8) : List Char × List UInt8 :=
  let d := bytes.foldl Decoder.feed ⟨[], held⟩
  (d.read.reverse, d.held)

/-- What was read before a byte stays in front of what the byte completes. -/
theorem feed_read (read : List Char) (held : List UInt8) (b : UInt8) :
    Decoder.feed ⟨read, held⟩ b =
      ⟨(Decoder.feed ⟨[], held⟩ b).read ++ read, (Decoder.feed ⟨[], held⟩ b).held⟩ := by
  simp only [Decoder.feed]
  cases form (held ++ [b]) with
  | char c => rfl
  | start => rfl
  | illFormed =>
    cases held with
    | nil => rfl
    | cons first rest => cases form [b] <;> rfl

theorem foldl_feed_read (read : List Char) (held bytes : List UInt8) :
    bytes.foldl Decoder.feed ⟨read, held⟩ =
      ⟨(bytes.foldl Decoder.feed ⟨[], held⟩).read ++ read,
        (bytes.foldl Decoder.feed ⟨[], held⟩).held⟩ := by
  induction bytes generalizing read held with
  | nil => rfl
  | cons b rest ih =>
    rw [List.foldl_cons, List.foldl_cons, feed_read, ih,
      ih (Decoder.feed ⟨[], held⟩ b).read, List.append_assoc]

theorem feed_append (held first second : List UInt8) :
    feed held (first ++ second) =
      ((feed held first).1 ++ (feed (feed held first).2 second).1,
        (feed (feed held first).2 second).2) := by
  simp only [feed, List.foldl_append]
  rw [foldl_feed_read (first.foldl Decoder.feed ⟨[], held⟩).read]
  simp

/-- A byte after which a character is not complete is held back. -/
theorem feed_of_start (held : List UInt8) {b : UInt8} {rest : List UInt8}
    (h : form (held ++ [b]) = .start) : feed held (b :: rest) = feed (held ++ [b]) rest := by
  simp only [feed, List.foldl_cons, Decoder.feed, h]

theorem feed_of_char (held : List UInt8) {b : UInt8} {c : Char} (h : form (held ++ [b]) = .char c)
    (rest : List UInt8) : feed held (b :: rest) = (c :: (feed [] rest).1, (feed [] rest).2) := by
  simp only [feed, List.foldl_cons, Decoder.feed, h]
  rw [foldl_feed_read [c]]
  simp

/-- Bytes held back that are not continued, or else the byte itself, are replaced. -/
theorem feed_of_illFormed (held : List UInt8) {b : UInt8} (h : form (held ++ [b]) = .illFormed)
    (rest : List UInt8) :
    let after := (held ++ b :: rest).drop (max 1 held.length)
    feed held (b :: rest) = (replacement :: (feed [] after).1, (feed [] after).2) := by
  have hreplaced : ∀ bytes : List UInt8, (bytes.foldl Decoder.feed ⟨[replacement], []⟩) =
      ⟨(bytes.foldl Decoder.feed ⟨[], []⟩).read ++ [replacement],
        (bytes.foldl Decoder.feed ⟨[], []⟩).held⟩ := foldl_feed_read [replacement] []
  cases held with
  | nil =>
    rw [List.nil_append] at h
    simp [feed, Decoder.feed, h, hreplaced]
  | cons first more =>
    have hafter : (first :: more ++ b :: rest).drop (max 1 (first :: more).length) = b :: rest := by
      rw [Nat.max_eq_right (by simp), List.drop_left]
    have hstep : Decoder.feed ⟨[], first :: more⟩ b = Decoder.feed ⟨[replacement], []⟩ b := by
      simp only [Decoder.feed, h, List.nil_append]
    have hbytes := hreplaced (b :: rest)
    rw [List.foldl_cons] at hbytes
    dsimp only
    rw [hafter]
    simp [feed, hstep, hbytes]

/-! ### Defects -/

/-- Bytes without a defect are read to the last one. -/
theorem feed_of_check_ok {text all : List Char} {validUpTo : Nat} {taken bytes : List UInt8}
    (h : check text validUpTo taken bytes = .ok all) :
    ∃ more, all = more.reverse ++ text ∧ feed taken bytes = (more, []) := by
  induction bytes generalizing text validUpTo taken with
  | nil =>
    rw [check] at h
    split at h
    · next hnil =>
      obtain rfl := Except.ok.inj h
      exact ⟨[], rfl, by rw [List.isEmpty_iff.1 hnil]; rfl⟩
    · cases h
  | cons b rest ih =>
    rw [check] at h
    split at h
    · next c hform =>
      obtain ⟨more, rfl, hmore⟩ := ih h
      exact ⟨c :: more, by simp, by rw [feed_of_char taken hform, hmore]⟩
    · next hform =>
      obtain ⟨more, hall, hmore⟩ := ih h
      exact ⟨more, hall, by rw [feed_of_start taken hform, hmore]⟩
    · cases h

/-- Bytes are read up to the first defect. If they end there, the rest of them is held back; if
not, a replacement character is read, and then what follows the ill-formed part. -/
theorem feed_of_check_error {text : List Char} {validUpTo : Nat} {taken bytes : List UInt8}
    {d : Defect} (h : check text validUpTo taken bytes = .error d) :
    ∃ more front after, d.text = more.reverse ++ text ∧ taken ++ bytes = front ++ after ∧
      d.validUpTo = validUpTo + front.length ∧
      feed taken bytes =
        match d.length? with
        | none => (more, after)
        | some n => (more ++ replacement :: (feed [] (after.drop n)).1, (feed [] (after.drop n)).2)
      := by
  induction bytes generalizing text validUpTo taken with
  | nil =>
    rw [check] at h
    split at h
    · cases h
    · obtain rfl := Except.error.inj h
      exact ⟨[], [], taken, rfl, List.append_nil taken, rfl, rfl⟩
  | cons b rest ih =>
    rw [check] at h
    split at h
    · next c hform =>
      obtain ⟨more, front, after, htext, happend, hvalid, hfeed⟩ := ih h
      rw [List.nil_append] at happend
      refine ⟨c :: more, taken ++ b :: front, after, by simp [htext], by simp [happend], ?_, ?_⟩
      · rw [hvalid, List.length_append, List.length_cons]
        omega
      · rw [feed_of_char taken hform, hfeed]
        cases d.length? <;> rfl
    · next hform =>
      obtain ⟨more, front, after, htext, happend, hvalid, hfeed⟩ := ih h
      refine ⟨more, front, after, htext, ?_, hvalid, ?_⟩
      · rw [← happend, List.append_assoc, List.singleton_append]
      · rw [feed_of_start taken hform, hfeed]
    · next hform =>
      obtain rfl := Except.error.inj h
      exact ⟨[], [], taken ++ b :: rest, rfl, rfl, rfl, feed_of_illFormed taken hform rest⟩

/-- Reading from defect to defect comes to the same as reading byte by byte. -/
theorem decodeFrom_eq_feed (out : List Char) (bytes : List UInt8) :
    decodeFrom out bytes = ((feed [] bytes).1.reverse ++ out, (feed [] bytes).2) := by
  fun_induction decodeFrom out bytes with
  | case1 out bytes text hcheck =>
    obtain ⟨more, htext, hfeed⟩ := feed_of_check_ok hcheck
    rw [hfeed, htext, List.append_nil]
  | case2 out bytes d hcheck after n hlength ih =>
    obtain ⟨more, front, rest, htext, happend, hvalid, hfeed⟩ := feed_of_check_error hcheck
    have hafter : after = rest := by
      simp only [after]
      rw [hvalid, Nat.zero_add, ← List.nil_append bytes, happend, List.drop_left]
    rw [ih, hfeed, hlength, hafter, htext]
    simp
  | case3 out bytes d hcheck after hlength =>
    obtain ⟨more, front, rest, htext, happend, hvalid, hfeed⟩ := feed_of_check_error hcheck
    have hafter : after = rest := by
      simp only [after]
      rw [hvalid, Nat.zero_add, ← List.nil_append bytes, happend, List.drop_left]
    rw [hfeed, hlength, hafter, htext, List.append_nil]

/-- A chunk is read byte by byte, together with what was held back. -/
theorem decode_eq_feed_append (held chunk : List UInt8) :
    decode held chunk = feed [] (held ++ chunk) := by
  rw [decode, decodeFrom_eq_feed]
  simp

/-! ### Bytes as numbers -/

theorem toNat_ofNat {n : Nat} (h : n < 256) : (UInt8.ofNat n).toNat = n :=
  UInt8.toNat_ofNat_of_lt' h

theorem ofNat_eq_iff {n k : Nat} (hn : n < 256) (hk : k < 256) :
    UInt8.ofNat n = UInt8.ofNat k ↔ n = k := by
  rw [← UInt8.toNat_inj, toNat_ofNat hn, toNat_ofNat hk]

theorem between_ofNat {n low high : Nat} (hn : n < 256) (hlow : low < 256) (hhigh : high < 256) :
    (UInt8.ofNat low ≤ UInt8.ofNat n && UInt8.ofNat n ≤ UInt8.ofNat high) = true ↔
      low ≤ n ∧ n ≤ high := by
  rw [Bool.and_eq_true, decide_eq_true_eq, decide_eq_true_eq, UInt8.le_iff_toNat_le,
    UInt8.le_iff_toNat_le, toNat_ofNat hn, toNat_ofNat hlow, toNat_ofNat hhigh]

theorem isTail_ofNat {b : Nat} (h : b < 256) :
    isTail (UInt8.ofNat b) = true ↔ 0x80 ≤ b ∧ b ≤ 0xbf :=
  between_ofNat h (by decide) (by decide)

/-- The range of the second byte, for each first byte of a three- or four-byte character. -/
theorem isSecond_ofNat {a b : Nat} (ha : a < 256) (hb : b < 256) :
    isSecond (UInt8.ofNat a) (UInt8.ofNat b) = true ↔
      if a = 0xe0 then 0xa0 ≤ b ∧ b ≤ 0xbf
      else if a = 0xed then 0x80 ≤ b ∧ b ≤ 0x9f
      else if a = 0xf0 then 0x90 ≤ b ∧ b ≤ 0xbf
      else if a = 0xf4 then 0x80 ≤ b ∧ b ≤ 0x8f
      else 0x80 ≤ b ∧ b ≤ 0xbf := by
  have he0 : UInt8.ofNat a = 0xe0 ↔ a = 0xe0 := ofNat_eq_iff ha (by decide)
  have hed : UInt8.ofNat a = 0xed ↔ a = 0xed := ofNat_eq_iff ha (by decide)
  have hf0 : UInt8.ofNat a = 0xf0 ↔ a = 0xf0 := ofNat_eq_iff ha (by decide)
  have hf4 : UInt8.ofNat a = 0xf4 ↔ a = 0xf4 := ofNat_eq_iff ha (by decide)
  simp only [isSecond, he0, hed, hf0, hf4]
  split_ifs
  · exact between_ofNat hb (by decide) (by decide)
  · exact between_ofNat hb (by decide) (by decide)
  · exact between_ofNat hb (by decide) (by decide)
  · exact between_ofNat hb (by decide) (by decide)
  · exact isTail_ofNat hb

/-! ### Forms of the bytes that encode a number -/

/-- The byte that continues a character with the six lowest bits of a number. -/
def tailByte (n : Nat) : UInt8 := UInt8.ofNat (n % 0x40 + 0x80)

@[simp] theorem isTail_tailByte (n : Nat) : isTail (tailByte n) = true :=
  (isTail_ofNat (by omega)).2 (by omega)

@[simp] theorem payload_tailByte (n : Nat) : payload (tailByte n) = n % 0x40 := by
  rw [payload, tailByte, toNat_ofNat (by omega)]
  omega

theorem form_one {a : Nat} (h : a < 0x80) : form [UInt8.ofNat a] = .char (Char.ofNat a) := by
  have hlow : UInt8.ofNat a < 0x80 := by
    rw [UInt8.lt_iff_toNat_lt, toNat_ofNat (by omega)]
    exact h
  rw [form, if_pos hlow, toNat_ofNat (by omega)]

theorem form_first {a : Nat} (hlow : 0xc2 ≤ a) (hhigh : a ≤ 0xf4) :
    form [UInt8.ofNat a] = .start := by
  have hnot : ¬ UInt8.ofNat a < 0x80 := by
    rw [UInt8.lt_iff_toNat_lt, toNat_ofNat (by omega)]
    exact Nat.not_lt.2 (Nat.le_trans (by decide) hlow)
  have hrange : (0xc2 ≤ UInt8.ofNat a && UInt8.ofNat a ≤ 0xf4) = true :=
    (between_ofNat (by omega) (by decide) (by decide)).2 ⟨hlow, hhigh⟩
  rw [form, if_neg hnot, if_pos hrange]

theorem form_two {a : Nat} (n : Nat) (hlow : 0xc2 ≤ a) (hhigh : a ≤ 0xdf) :
    form [UInt8.ofNat a, tailByte n] = .char (Char.ofNat (a % 32 * 64 + n % 64)) := by
  have hrange : (0xc2 ≤ UInt8.ofNat a && UInt8.ofNat a ≤ 0xdf) = true :=
    (between_ofNat (by omega) (by decide) (by decide)).2 ⟨hlow, hhigh⟩
  have ha : (UInt8.ofNat a).toNat = a := toNat_ofNat (by omega)
  simp only [form, hrange, isTail_tailByte, Bool.and_self, if_true, payload_tailByte, ha]

theorem form_second {a n : Nat} (hlow : 0xe0 ≤ a) (hhigh : a ≤ 0xf4)
    (h : isSecond (UInt8.ofNat a) (tailByte n) = true) :
    form [UInt8.ofNat a, tailByte n] = .start := by
  have hnot : ¬ (0xc2 ≤ UInt8.ofNat a && UInt8.ofNat a ≤ 0xdf) = true := by
    intro hrange
    have : 0xc2 ≤ a ∧ a ≤ 0xdf := (between_ofNat (by omega) (by decide) (by decide)).1 hrange
    omega
  have hrange : (0xe0 ≤ UInt8.ofNat a && UInt8.ofNat a ≤ 0xf4) = true :=
    (between_ofNat (by omega) (by decide) (by decide)).2 ⟨hlow, hhigh⟩
  rw [form, if_neg (by simp [hnot])]
  simp only [hrange, h, Bool.and_self, if_true]

theorem form_three {a n : Nat} (m : Nat) (hlow : 0xe0 ≤ a) (hhigh : a ≤ 0xef)
    (h : isSecond (UInt8.ofNat a) (tailByte n) = true) :
    form [UInt8.ofNat a, tailByte n, tailByte m] =
      .char (Char.ofNat ((a % 16 * 64 + n % 64) * 64 + m % 64)) := by
  have hrange : (0xe0 ≤ UInt8.ofNat a && UInt8.ofNat a ≤ 0xef) = true :=
    (between_ofNat (by omega) (by decide) (by decide)).2 ⟨hlow, hhigh⟩
  have ha : (UInt8.ofNat a).toNat = a := toNat_ofNat (by omega)
  simp only [form, hrange, h, isTail_tailByte, Bool.and_self, if_true, payload_tailByte, ha]

theorem form_third {a n : Nat} (m : Nat) (hlow : 0xf0 ≤ a) (hhigh : a ≤ 0xf4)
    (h : isSecond (UInt8.ofNat a) (tailByte n) = true) :
    form [UInt8.ofNat a, tailByte n, tailByte m] = .start := by
  have hnot : ¬ (0xe0 ≤ UInt8.ofNat a && UInt8.ofNat a ≤ 0xef) = true := by
    intro hrange
    have : 0xe0 ≤ a ∧ a ≤ 0xef := (between_ofNat (by omega) (by decide) (by decide)).1 hrange
    omega
  have hrange : (0xf0 ≤ UInt8.ofNat a && UInt8.ofNat a ≤ 0xf4) = true :=
    (between_ofNat (by omega) (by decide) (by decide)).2 ⟨hlow, hhigh⟩
  rw [form, if_neg (by simp [hnot])]
  simp only [hrange, h, isTail_tailByte, Bool.and_self, if_true]

theorem form_four {a n : Nat} (m k : Nat) (hlow : 0xf0 ≤ a) (hhigh : a ≤ 0xf4)
    (h : isSecond (UInt8.ofNat a) (tailByte n) = true) :
    form [UInt8.ofNat a, tailByte n, tailByte m, tailByte k] =
      .char (Char.ofNat (((a % 8 * 64 + n % 64) * 64 + m % 64) * 64 + k % 64)) := by
  have hrange : (0xf0 ≤ UInt8.ofNat a && UInt8.ofNat a ≤ 0xf4) = true :=
    (between_ofNat (by omega) (by decide) (by decide)).2 ⟨hlow, hhigh⟩
  have ha : (UInt8.ofNat a).toNat = a := toNat_ofNat (by omega)
  simp only [form, hrange, h, isTail_tailByte, Bool.and_self, if_true, payload_tailByte, ha]

/-! ### Encoded text -/

/-- Overlong forms and surrogates are the only encodings that the second byte shuts out. -/
theorem isSecond_tailByte {a n : Nat} (ha : 0xe0 ≤ a) (ha' : a ≤ 0xf4)
    (he0 : a = 0xe0 → 0x20 ≤ n % 64) (hed : a = 0xed → n % 64 < 0x20)
    (hf0 : a = 0xf0 → 0x10 ≤ n % 64) (hf4 : a = 0xf4 → n % 64 < 0x10) :
    isSecond (UInt8.ofNat a) (tailByte n) = true := by
  rw [tailByte, isSecond_ofNat (by omega) (by omega)]
  split_ifs <;> omega

/-- An encoding has the form of its character, and each proper beginning of it that of a start. -/
theorem form_utf8EncodeChar (c : Char) :
    form (String.utf8EncodeChar c) = .char c ∧
      ∀ n, 0 < n → n < (String.utf8EncodeChar c).length →
        form ((String.utf8EncodeChar c).take n) = .start := by
  have hc : Char.ofNat c.val.toNat = c := Char.ofNat_toNat c
  have hvalid : c.val.toNat < 0xd800 ∨ (0xdfff < c.val.toNat ∧ c.val.toNat < 0x110000) := c.valid
  fun_cases String.utf8EncodeChar c with
  | case1 v hone =>
    constructor
    · rw [form_one (by omega), hc]
    · intro n hpos hlt
      simp at hlt
      omega
  | case2 v hone htwo =>
    constructor
    · refine (form_two v (by omega) (by omega)).trans ?_
      refine congrArg Form.char (Eq.trans (congrArg Char.ofNat ?_) hc)
      show (v / 64 % 0x20 + 0xc0) % 32 * 64 + v % 64 = v
      omega
    · intro n hpos hlt
      obtain rfl : n = 1 := by simp at hlt; omega
      exact form_first (show 0xc2 ≤ v / 64 % 0x20 + 0xc0 by omega) (by omega)
  | case3 v hone htwo hthree =>
    have hsecond : isSecond (UInt8.ofNat (v / 4096 % 0x10 + 0xe0)) (tailByte (v / 64)) = true :=
      isSecond_tailByte (by omega) (by omega) (by omega) (by omega) (by omega) (by omega)
    constructor
    · refine (form_three v (by omega) (by omega) hsecond).trans ?_
      refine congrArg Form.char (Eq.trans (congrArg Char.ofNat ?_) hc)
      show ((v / 4096 % 0x10 + 0xe0) % 16 * 64 + v / 64 % 64) * 64 + v % 64 = v
      omega
    · intro n hpos hlt
      obtain rfl | rfl : n = 1 ∨ n = 2 := by simp at hlt; omega
      · exact form_first (show 0xc2 ≤ v / 4096 % 0x10 + 0xe0 by omega) (by omega)
      · exact form_second (by omega) (by omega) hsecond
  | case4 v hone htwo hthree =>
    have hsecond :
        isSecond (UInt8.ofNat (v / 262144 % 0x08 + 0xf0)) (tailByte (v / 4096)) = true :=
      isSecond_tailByte (by omega) (by omega) (by omega) (by omega) (by omega) (by omega)
    constructor
    · refine (form_four (v / 64) v (by omega) (by omega) hsecond).trans ?_
      refine congrArg Form.char (Eq.trans (congrArg Char.ofNat ?_) hc)
      show (((v / 262144 % 0x08 + 0xf0) % 8 * 64 + v / 4096 % 64) * 64 + v / 64 % 64) * 64 +
        v % 64 = v
      omega
    · intro n hpos hlt
      obtain rfl | rfl | rfl : n = 1 ∨ n = 2 ∨ n = 3 := by simp at hlt; omega
      · exact form_first (show 0xc2 ≤ v / 262144 % 0x08 + 0xf0 by omega) (by omega)
      · exact form_second (by omega) (by omega) hsecond
      · exact form_third (v / 64) (by omega) (by omega) hsecond

theorem form_of_append_eq_encode {part more : List UInt8} {c : Char}
    (h : part ++ more = String.utf8EncodeChar c) (hpart : part ≠ []) (hmore : more ≠ []) :
    form part = .start := by
  have hlength := congrArg List.length h
  have hpos := List.length_pos_of_ne_nil hpart
  have hpos' := List.length_pos_of_ne_nil hmore
  rw [List.length_append] at hlength
  have hstart := (form_utf8EncodeChar c).2 part.length hpos (by omega)
  rwa [← h, List.take_left' rfl] at hstart

/-- Bytes that complete a character are read as it. -/
theorem feed_of_append_eq_encode {held rest : List UInt8} {c : Char}
    (h : held ++ rest = String.utf8EncodeChar c) (hrest : rest ≠ []) :
    feed held rest = ([c], []) := by
  induction rest generalizing held with
  | nil => exact absurd rfl hrest
  | cons b rest ih =>
    have happend : (held ++ [b]) ++ rest = String.utf8EncodeChar c := by
      rw [List.append_assoc]
      exact h
    by_cases hlast : rest = []
    · subst hlast
      have hchar : form (held ++ [b]) = .char c := by
        rw [h]
        exact (form_utf8EncodeChar c).1
      exact feed_of_char held hchar []
    · rw [feed_of_start held (form_of_append_eq_encode happend (by simp) hlast)]
      exact ih happend hlast

theorem feed_utf8EncodeChar (c : Char) : feed [] (String.utf8EncodeChar c) = ([c], []) :=
  feed_of_append_eq_encode rfl String.utf8EncodeChar_ne_nil

/-- The encoding of a text, decoded in one piece, gives the text back. -/
theorem decode_encode (text : List Char) :
    decode [] (text.flatMap String.utf8EncodeChar) = (text, []) := by
  rw [decode_eq_feed_append, List.nil_append]
  induction text with
  | nil => rfl
  | cons c rest ih => rw [List.flatMap_cons, feed_append, feed_utf8EncodeChar, ih]; rfl

end StagedSandbox.Text.Utf8

namespace StagedSandbox.Bytes

theorem list_ofText (text : String) :
    (ofText text).list = text.toList.flatMap String.utf8EncodeChar := by
  rw [ofText, String.toUTF8, ← String.utf8Encode_toList, List.utf8Encode, list]
  simp

theorem ofText_append (first second : String) :
    ofText (first ++ second) = ofText first ++ ofText second := by
  rw [← list_inj, list_append, list_ofText, list_ofText, list_ofText, String.toList_append,
    List.flatMap_append]

@[simp] theorem size_ofText (text : String) : (ofText text).size = text.utf8ByteSize := rfl

/-- A character takes at least one byte. -/
theorem length_le_size_ofText (text : String) : text.toList.length ≤ (ofText text).size := by
  rw [← length_list, list_ofText]
  induction text.toList with
  | nil => exact Nat.le_refl 0
  | cons c rest ih =>
    have := List.length_pos_of_ne_nil (String.utf8EncodeChar_ne_nil (c := c))
    rw [List.flatMap_cons, List.length_append, List.length_cons]
    omega

/-- The text that the encoding of a text is read as is the text. -/
theorem text?_ofText (text : String) : (ofText text).text? = some text := by
  rw [text?, String.fromUTF8?, dif_pos (show (ofText text).IsValidUTF8 from text.isValidUTF8)]
  rfl

theorem eq_ofText_of_text? {b : Bytes} {text : String} (h : b.text? = some text) :
    b = ofText text := by
  rw [text?, String.fromUTF8?] at h
  split at h
  · rw [← Option.some.inj h]
    rfl
  · cases h

theorem decode_ofText (text : String) :
    Text.Utf8.decode [] (ofText text).list = (text.toList, []) := by
  rw [list_ofText, Text.Utf8.decode_encode]

end StagedSandbox.Bytes
