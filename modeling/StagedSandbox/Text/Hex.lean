import StagedSandbox.Bytes
import StagedSandbox.Text.Integer
import StagedSandbox.Text.Quoted

/-!
# Hexadecimal bytes

Bytes are written as two lower-case digits each. Reading takes digits of either case; an odd
number of digits is refused before any of them is looked at. Positions in errors count the bytes
of the text, and a byte is shown as the character of that code point.
-/

namespace StagedSandbox.Text.Hex

inductive Error where
  | oddLength
  | invalid (byte : UInt8) (position : Nat)
  deriving DecidableEq, Repr

def Error.message : Error → String
  | .oddLength => "Odd number of digits"
  | .invalid byte position =>
    "Invalid character " ++ quoted '\'' (String.singleton (Char.ofNat byte.toNat)) ++
      " at position " ++ decimal position

/-- The digit of a number below 16. -/
def digit (n : Nat) : Char := Nat.digitChar n

/-- The two digits of a byte. -/
def encodeByte (b : UInt8) : List Char := [digit (b.toNat / 16), digit (b.toNat % 16)]

/-- The digits of a byte sequence. -/
def encode (bytes : List UInt8) : List Char := bytes.flatMap encodeByte

/-- The value of a digit. -/
def value? (b : UInt8) : Option Nat :=
  let n := b.toNat
  if 0x30 ≤ n ∧ n ≤ 0x39 then some (n - 0x30)
  else if 0x61 ≤ n ∧ n ≤ 0x66 then some (n - 0x61 + 10)
  else if 0x41 ≤ n ∧ n ≤ 0x46 then some (n - 0x41 + 10)
  else none

/-- The bytes of a sequence of digit pairs that starts at a position. -/
def decodePairs (position : Nat) : List UInt8 → Except Error (List UInt8)
  | a :: b :: rest =>
    match value? a, value? b with
    | none, _ => .error (.invalid a position)
    | some _, none => .error (.invalid b (position + 1))
    | some high, some low =>
      (decodePairs (position + 2) rest).map (UInt8.ofNat (16 * high + low) :: ·)
  | _ => .ok []

/-- The bytes whose digits are given. -/
def decode (digits : List UInt8) : Except Error (List UInt8) :=
  if digits.length % 2 = 1 then .error .oddLength else decodePairs 0 digits

/-! ### Laws -/

theorem value?_digit {n : Nat} (h : n < 16) : value? (UInt8.ofNat (digit n).toNat) = some n := by
  have : ∀ n : Fin 16, value? (UInt8.ofNat (digit n).toNat) = some n.val := by decide
  exact this ⟨n, h⟩

@[simp] theorem encode_nil : encode [] = [] := rfl

@[simp] theorem encode_cons (b : UInt8) (rest : List UInt8) :
    encode (b :: rest) = digit (b.toNat / 16) :: digit (b.toNat % 16) :: encode rest := rfl

@[simp] theorem length_encode (bytes : List UInt8) : (encode bytes).length = 2 * bytes.length := by
  induction bytes with
  | nil => rfl
  | cons b rest ih => rw [encode_cons]; simp only [List.length_cons, ih]; omega

end StagedSandbox.Text.Hex
