/-!
# Reading signed decimal numbers

A number is an optional sign and at least one digit, and has to lie between two bounds. The first
character that is no digit, or that takes the number over a bound, decides the error.
-/

namespace StagedSandbox.Text.Integer

inductive Error where
  | empty
  | invalidDigit
  | tooLarge
  | tooSmall
  deriving DecidableEq, Repr

def Error.message : Error → String
  | .empty => "cannot parse integer from empty string"
  | .invalidDigit => "invalid digit found in string"
  | .tooLarge => "number too large to fit in target type"
  | .tooSmall => "number too small to fit in target type"

/-- The value of a decimal digit. -/
def digit? (c : Char) : Option Nat :=
  if c.isDigit then some (c.toNat - '0'.toNat) else none

/-- Read further digits of a number that is at most `bound`. -/
def digits (bound : Nat) (beyond : Error) (soFar : Nat) : List Char → Except Error Nat
  | [] => .ok soFar
  | c :: rest =>
    match digit? c with
    | none => .error .invalidDigit
    | some d =>
      if 10 * soFar + d ≤ bound then digits bound beyond (10 * soFar + d) rest
      else .error beyond

/-- Read the digits after the sign. -/
def magnitude (bound : Nat) (beyond : Error) (text : List Char) : Except Error Nat :=
  if text.isEmpty then .error .invalidDigit else digits bound beyond 0 text

/-- The sign bit of a word of so many bits: the least number that is too large for the word. -/
def signBit (bits : Nat) : Nat := 1 <<< (bits - 1)

/-- Read a number of the two's complement range of so many bits. -/
def read (bits : Nat) : List Char → Except Error Int
  | [] => .error .empty
  | '-' :: rest => (magnitude (signBit bits) .tooSmall rest).map fun n => -(n : Int)
  | '+' :: rest => (magnitude (signBit bits - 1) .tooLarge rest).map Int.ofNat
  | text => (magnitude (signBit bits - 1) .tooLarge text).map Int.ofNat

end StagedSandbox.Text.Integer

namespace StagedSandbox.Text

/-- A natural number in decimal. -/
def decimal (n : Nat) : String := String.ofList (Nat.toDigits 10 n)

/-- A number in decimal, with a sign if it is negative. -/
def signed : Int → String
  | .ofNat n => decimal n
  | .negSucc n => "-" ++ decimal (n + 1)

end StagedSandbox.Text
