/-!
# Tokens of JSON text

JSON text as a list of tokens. White space stands between tokens only, and every token is read by
its own rule: a number has no leading zeros and needs digits where it promises them, a string
holds no raw control characters. A string may still hold escapes that make no character, a lone
half of a surrogate pair; such a string is read as one without text.
-/

namespace StagedSandbox.Json

inductive Token where
  | openArray
  | closeArray
  | openObject
  | closeObject
  | colon
  | comma
  | null
  | bool (value : Bool)
  /-- A number, with its value if it is written as a natural number. -/
  | number (value : Option Nat)
  /-- A string, with its text unless an escape makes no character. -/
  | text (value : Option (List Char))
  deriving DecidableEq, Repr

/-- The four characters that may stand between tokens. -/
def isSpace (c : Char) : Bool := c == ' ' || c == '\t' || c == '\n' || c == '\r'

/-! ### Strings -/

/-- The value of a hexadecimal digit of either case. -/
def hexDigit? (c : Char) : Option Nat :=
  if '0' ≤ c ∧ c ≤ '9' then some (c.toNat - '0'.toNat)
  else if 'a' ≤ c ∧ c ≤ 'f' then some (c.toNat - 'a'.toNat + 10)
  else if 'A' ≤ c ∧ c ≤ 'F' then some (c.toNat - 'A'.toNat + 10)
  else none

/-- The value of four hexadecimal digits. -/
def hex4? (a b c d : Char) : Option Nat := do
  return (((← hexDigit? a) * 16 + (← hexDigit? b)) * 16 + (← hexDigit? c)) * 16 + (← hexDigit? d)

/-- The first half of a surrogate pair. -/
def isHigh (unit : Nat) : Bool := 0xd800 ≤ unit && unit < 0xdc00

/-- The second half of a surrogate pair. -/
def isLow (unit : Nat) : Bool := 0xdc00 ≤ unit && unit < 0xe000

/-- The character of a surrogate pair. -/
def ofPair (high low : Nat) : Char :=
  Char.ofNat (0x10000 + (high - 0xd800) * 0x400 + (low - 0xdc00))

/-- The character of an escape of one letter. -/
def shortEscape? : Char → Option Char
  | '"' => some '"'
  | '\\' => some '\\'
  | '/' => some '/'
  | 'b' => some '\x08'
  | 'f' => some '\x0c'
  | 'n' => some '\n'
  | 'r' => some '\r'
  | 't' => some '\t'
  | _ => none

/-- A piece of a string: a character, or half of a surrogate pair. -/
inductive Piece where
  | char (c : Char)
  | half (unit : Nat)
  deriving DecidableEq, Repr

/-- The piece that an escaped number stands for. -/
def Piece.ofUnit (unit : Nat) : Piece :=
  if isHigh unit || isLow unit then .half unit else .char (Char.ofNat unit)

/-- Read a string after its opening quote: its pieces, and what follows its closing quote. -/
def stringBody : List Char → Option (List Piece × List Char)
  | [] => none
  | '"' :: rest => some ([], rest)
  | '\\' :: 'u' :: a :: b :: c :: d :: rest =>
    match hex4? a b c d with
    | none => none
    | some unit => (stringBody rest).map fun body => (.ofUnit unit :: body.1, body.2)
  | '\\' :: c :: rest =>
    match shortEscape? c with
    | none => none
    | some c => (stringBody rest).map fun body => (.char c :: body.1, body.2)
  | c :: rest =>
    if c < ' ' then none else (stringBody rest).map fun body => (.char c :: body.1, body.2)

/-- The text of the pieces, if each half is the first or second of a pair. -/
def joinPieces : List Piece → Option (List Char)
  | [] => some []
  | .char c :: rest => (joinPieces rest).map (c :: ·)
  | .half high :: .half low :: rest =>
    if isHigh high && isLow low then (joinPieces rest).map (ofPair high low :: ·) else none
  | .half _ :: _ => none

/-! ### Numbers -/

/-- The value of a list of decimal digits. -/
def ofDigits (digits : List Char) : Nat :=
  digits.foldl (fun n c => 10 * n + (c.toNat - '0'.toNat)) 0

/-- Read one digit or more. -/
def digits? (text : List Char) : Option (List Char × List Char) :=
  match text.takeWhile Char.isDigit with
  | [] => none
  | digits => some (digits, text.dropWhile Char.isDigit)

/-- Skip a sign. -/
def skipSign : List Char → List Char
  | '+' :: rest => rest
  | '-' :: rest => rest
  | text => text

/-- Read the fraction of a number, if there is one: whether there is, and what follows. -/
def fraction? : List Char → Option (Bool × List Char)
  | '.' :: rest => (digits? rest).map fun parts => (true, parts.2)
  | text => some (false, text)

/-- Read the exponent of a number, if there is one: whether there is, and what follows. -/
def exponent? (text : List Char) : Option (Bool × List Char) :=
  match text with
  | 'e' :: rest | 'E' :: rest => (digits? (skipSign rest)).map fun parts => (true, parts.2)
  | _ => some (false, text)

/-- Whether a list of digits starts with a needless zero. -/
def hasLeadingZero (digits : List Char) : Bool := digits.head? == some '0' && digits.length != 1

/-- Read a number without sign: its value if it is natural, and what follows. -/
def unsigned? (text : List Char) : Option (Option Nat × List Char) :=
  match digits? text with
  | none => none
  | some (whole, rest) =>
    if hasLeadingZero whole then none
    else
      match fraction? rest with
      | none => none
      | some (hasFraction, rest) =>
        (exponent? rest).map fun parts =>
          (if hasFraction || parts.1 then none else some (ofDigits whole), parts.2)

/-- Read a number: its value if it is written as a natural number, and what follows. -/
def number? : List Char → Option (Option Nat × List Char)
  | '-' :: rest => (unsigned? rest).map fun parts => (none, parts.2)
  | text => unsigned? text

/-! ### Tokens -/

/-- Read the word of a literal whose first letter was read. -/
def literal? (letters : List Char) (token : Token) (text : List Char) :
    Option (Token × List Char) :=
  if letters.isPrefixOf text then some (token, text.drop letters.length) else none

/-- Read the token that begins with a character. -/
def token? (c : Char) (rest : List Char) : Option (Token × List Char) :=
  match c with
  | '[' => some (.openArray, rest)
  | ']' => some (.closeArray, rest)
  | '{' => some (.openObject, rest)
  | '}' => some (.closeObject, rest)
  | ':' => some (.colon, rest)
  | ',' => some (.comma, rest)
  | 'n' => literal? ['u', 'l', 'l'] .null rest
  | 't' => literal? ['r', 'u', 'e'] (.bool true) rest
  | 'f' => literal? ['a', 'l', 's', 'e'] (.bool false) rest
  | '"' => (stringBody rest).map fun body => (.text (joinPieces body.1), body.2)
  | c => (number? (c :: rest)).map fun parts => (.number parts.1, parts.2)

/-! ### Each token takes something away -/

theorem length_stringBody {text : List Char} {body : List Piece × List Char}
    (h : stringBody text = some body) : body.2.length < text.length := by
  fun_induction stringBody text generalizing body with
  | case1 => simp at h
  | case2 rest =>
    simp only [Option.some.injEq] at h
    subst h
    simp
  | case3 => simp at h
  | case4 a b c d rest unit hunit ih =>
    obtain ⟨inner, hinner, rfl⟩ := Option.map_eq_some_iff.1 h
    have := ih hinner
    simp only [List.length_cons]
    omega
  | case5 => simp at h
  | case6 c rest hne c' hc ih =>
    obtain ⟨inner, hinner, rfl⟩ := Option.map_eq_some_iff.1 h
    have := ih hinner
    simp only [List.length_cons]
    omega
  | case7 => simp at h
  | case8 c rest _ _ _ hc ih =>
    obtain ⟨inner, hinner, rfl⟩ := Option.map_eq_some_iff.1 h
    have := ih hinner
    simp only [List.length_cons]
    omega

theorem length_digits? {text : List Char} {parts : List Char × List Char}
    (h : digits? text = some parts) : parts.2.length < text.length := by
  unfold digits? at h
  split at h
  · simp at h
  · next hne =>
    simp only [Option.some.injEq] at h
    subst h
    have hsplit : (text.takeWhile Char.isDigit ++ text.dropWhile Char.isDigit).length =
        text.length := congrArg List.length List.takeWhile_append_dropWhile
    have hpos := List.length_pos_iff.2 hne
    simp only [List.length_append] at hsplit
    simp only
    omega

theorem length_skipSign (text : List Char) : (skipSign text).length ≤ text.length := by
  unfold skipSign
  split <;> simp

theorem length_fraction? {text : List Char} {parts : Bool × List Char}
    (h : fraction? text = some parts) : parts.2.length ≤ text.length := by
  unfold fraction? at h
  split at h
  · obtain ⟨inner, hinner, rfl⟩ := Option.map_eq_some_iff.1 h
    have := length_digits? hinner
    simp only [List.length_cons]
    omega
  · simp only [Option.some.injEq] at h
    subst h
    exact Nat.le_refl _

theorem length_exponent? {text : List Char} {parts : Bool × List Char}
    (h : exponent? text = some parts) : parts.2.length ≤ text.length := by
  have key : ∀ rest : List Char, (digits? (skipSign rest)).map (fun p => (true, p.2)) = some parts →
      parts.2.length ≤ rest.length := by
    intro rest h
    obtain ⟨inner, hinner, rfl⟩ := Option.map_eq_some_iff.1 h
    have := length_digits? hinner
    have := length_skipSign rest
    simp only
    omega
  unfold exponent? at h
  split at h
  · exact Nat.le_succ_of_le (key _ h)
  · exact Nat.le_succ_of_le (key _ h)
  · simp only [Option.some.injEq] at h
    subst h
    exact Nat.le_refl _

theorem length_unsigned? {text : List Char} {parts : Option Nat × List Char}
    (h : unsigned? text = some parts) : parts.2.length < text.length := by
  unfold unsigned? at h
  split at h
  · simp at h
  · next whole rest hwhole =>
    split at h
    · simp at h
    · split at h
      · simp at h
      · next hasFraction rest' hfraction =>
        obtain ⟨inner, hinner, rfl⟩ := Option.map_eq_some_iff.1 h
        have := length_digits? hwhole
        have := length_fraction? hfraction
        have := length_exponent? hinner
        simp only at *
        omega

theorem length_number? {text : List Char} {parts : Option Nat × List Char}
    (h : number? text = some parts) : parts.2.length < text.length := by
  unfold number? at h
  split at h
  · obtain ⟨inner, hinner, rfl⟩ := Option.map_eq_some_iff.1 h
    have := length_unsigned? hinner
    simp only [List.length_cons]
    omega
  · exact length_unsigned? h

theorem length_literal? {letters text : List Char} {token : Token} {result : Token × List Char}
    (h : literal? letters token text = some result) : result.2.length ≤ text.length := by
  unfold literal? at h
  split at h
  · simp only [Option.some.injEq] at h
    subst h
    simp
  · simp at h

theorem length_token? {c : Char} {rest : List Char} {result : Token × List Char}
    (h : token? c rest = some result) : result.2.length ≤ rest.length := by
  unfold token? at h
  split at h
  case h_7 | h_8 | h_9 => exact length_literal? h
  case h_10 =>
    obtain ⟨inner, hinner, rfl⟩ := Option.map_eq_some_iff.1 h
    exact Nat.le_of_lt (length_stringBody hinner)
  case h_11 =>
    obtain ⟨inner, hinner, rfl⟩ := Option.map_eq_some_iff.1 h
    exact Nat.le_of_lt_succ (length_number? hinner)
  all_goals
    simp only [Option.some.injEq] at h
    subst h
    exact Nat.le_refl _

/-- The tokens of a text. -/
def tokens (text : List Char) : Option (List Token) :=
  match _ht : text.dropWhile isSpace with
  | [] => some []
  | c :: rest =>
    match _h : token? c rest with
    | none => none
    | some (token, rest') => (tokens rest').map (token :: ·)
termination_by text.length
decreasing_by
  have h1 := length_token? _h
  have h2 : (text.dropWhile isSpace).length ≤ text.length := (List.dropWhile_sublist _).length_le
  rw [_ht, List.length_cons] at h2
  simp only at h1
  omega

end StagedSandbox.Json
