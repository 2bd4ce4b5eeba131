/-!
# Lossy UTF-8

Bytes are read as UTF-8, and one replacement character stands for each maximal ill-formed part:
the longest beginning of a well-formed sequence that the bytes do not complete, or a single byte
that begins none. `Utf8.lossy` reads a whole byte sequence. `Utf8.decode` reads a chunk of a stream,
and holds back the beginning of a character until its last byte is there.
-/

namespace StagedSandbox.Text.Utf8

/-- What a few bytes are to UTF-8: a character, a proper beginning of one, or neither. -/
inductive Form where
  | char (c : Char)
  | start
  | illFormed
  deriving DecidableEq, Repr

/-- The character that stands for ill-formed bytes. -/
def replacement : Char := '\ufffd'

/-- A byte that continues a character. -/
def isTail (b : UInt8) : Bool := 0x80 ≤ b && b ≤ 0xbf

/-- Whether a byte may follow the first byte of a three- or four-byte character. The narrower
ranges shut out overlong forms, surrogates and numbers beyond the last code point. -/
def isSecond (first second : UInt8) : Bool :=
  if first = 0xe0 then 0xa0 ≤ second && second ≤ 0xbf
  else if first = 0xed then 0x80 ≤ second && second ≤ 0x9f
  else if first = 0xf0 then 0x90 ≤ second && second ≤ 0xbf
  else if first = 0xf4 then 0x80 ≤ second && second ≤ 0x8f
  else isTail second

/-- The six payload bits of a continuing byte. -/
def payload (b : UInt8) : Nat := b.toNat % 64

/-- What a sequence of bytes is to UTF-8. -/
def form : List UInt8 → Form
  | [a] =>
    if a < 0x80 then .char (Char.ofNat a.toNat)
    else if 0xc2 ≤ a && a ≤ 0xf4 then .start
    else .illFormed
  | [a, b] =>
    if 0xc2 ≤ a && a ≤ 0xdf && isTail b then .char (Char.ofNat (a.toNat % 32 * 64 + payload b))
    else if 0xe0 ≤ a && a ≤ 0xf4 && isSecond a b then .start
    else .illFormed
  | [a, b, c] =>
    if 0xe0 ≤ a && a ≤ 0xef && isSecond a b && isTail c then
      .char (Char.ofNat ((a.toNat % 16 * 64 + payload b) * 64 + payload c))
    else if 0xf0 ≤ a && a ≤ 0xf4 && isSecond a b && isTail c then .start
    else .illFormed
  | [a, b, c, d] =>
    if 0xf0 ≤ a && a ≤ 0xf4 && isSecond a b && isTail c && isTail d then
      .char (Char.ofNat (((a.toNat % 8 * 64 + payload b) * 64 + payload c) * 64 + payload d))
    else .illFormed
  | _ => .illFormed

/-! ### Whole sequences -/

/-- Take in bytes as long as they are the beginning of a character. Answers how many bytes the
character or the maximal ill-formed part has, and the character to read for it. -/
def extend (taken : List UInt8) : List UInt8 → Nat × Char
  | [] => (taken.length, replacement)
  | b :: rest =>
    match form (taken ++ [b]) with
    | .char c => (taken.length + 1, c)
    | .start => extend (taken ++ [b]) rest
    | .illFormed => (max 1 taken.length, replacement)

theorem length_le_extend (taken rest : List UInt8) : taken.length ≤ (extend taken rest).1 := by
  induction rest generalizing taken with
  | nil => exact Nat.le_refl _
  | cons b rest ih =>
    unfold extend
    split
    · exact Nat.le_succ _
    · have := ih (taken ++ [b])
      simp only [List.length_append, List.length_singleton] at this
      omega
    · exact Nat.le_max_right _ _

theorem extend_pos (b : UInt8) (rest : List UInt8) : 0 < (extend [] (b :: rest)).1 := by
  unfold extend
  split
  · simp
  · exact Nat.lt_of_lt_of_le (by simp) (length_le_extend _ _)
  · simp

/-- The text that a byte sequence is read as. -/
def lossy : List UInt8 → List Char
  | [] => []
  | b :: rest =>
    (extend [] (b :: rest)).2 :: lossy ((b :: rest).drop (extend [] (b :: rest)).1)
termination_by bytes => bytes.length
decreasing_by
  have := extend_pos b rest
  simp only [List.length_drop, List.length_cons]
  omega

/-! ### Streams -/

/-- Where a byte sequence is not well-formed. -/
structure Defect where
  /-- The characters before it, the last one first. -/
  text : List Char
  /-- The number of bytes before it. -/
  validUpTo : Nat
  /-- The length of the ill-formed part, unless the bytes end within a character. -/
  length? : Option Nat
  deriving DecidableEq, Repr

/-- Read bytes up to the first defect, after a text and some bytes that begin a character. The
characters are answered the last one first. -/
def check (text : List Char) (validUpTo : Nat) (taken : List UInt8) :
    List UInt8 → Except Defect (List Char)
  | [] => if taken.isEmpty then .ok text else .error ⟨text, validUpTo, none⟩
  | b :: rest =>
    match form (taken ++ [b]) with
    | .char c => check (c :: text) (validUpTo + taken.length + 1) [] rest
    | .start => check text validUpTo (taken ++ [b]) rest
    | .illFormed => .error ⟨text, validUpTo, some (max 1 taken.length)⟩

theorem length?_pos {text : List Char} {validUpTo : Nat} {taken bytes : List UInt8} {d : Defect}
    (h : check text validUpTo taken bytes = .error d) {n : Nat} (hn : d.length? = some n) :
    0 < n := by
  induction bytes generalizing text validUpTo taken with
  | nil =>
    rw [check] at h
    split at h
    · cases h
    · cases h
      cases hn
  | cons b rest ih =>
    rw [check] at h
    split at h
    · exact ih h
    · exact ih h
    · cases h
      cases hn
      exact Nat.lt_of_lt_of_le Nat.one_pos (Nat.le_max_left _ _)

/-- Read bytes up to a character that they do not complete, after the characters in `out`, the last
one first. One replacement character is read for each ill-formed part. -/
def decodeFrom (out : List Char) (bytes : List UInt8) : List Char × List UInt8 :=
  match _hcheck : check [] 0 [] bytes with
  | .ok text => (text ++ out, [])
  | .error d =>
    let after := bytes.drop d.validUpTo
    match _hlength : d.length? with
    | some n => decodeFrom (replacement :: (d.text ++ out)) (after.drop n)
    | none => (d.text ++ out, after)
termination_by bytes.length
decreasing_by
  have hpos := length?_pos _hcheck _hlength
  cases bytes with
  | nil => cases _hcheck
  | cons b rest =>
    simp only [List.length_drop, List.length_cons]
    omega

/-- The text that a chunk completes after the bytes held back, and the bytes held back then. -/
def decode (held chunk : List UInt8) : List Char × List UInt8 :=
  let (out, held) := decodeFrom [] (held ++ chunk)
  (out.reverse, held)

/-- The text for bytes that are held back when the stream ends. -/
def finish (held : List UInt8) : List Char := lossy held

end StagedSandbox.Text.Utf8
