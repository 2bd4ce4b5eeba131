import StagedSandbox.Text.Printable

/-!
# Quoted text

Text between quotes, as it is shown in messages. The quote itself, the backslash and the common
control characters have a short escape; other characters that are not printable, or that join
with the one before, are shown by their code point.
-/

namespace StagedSandbox.Text

/-- A code point in lower-case hexadecimal between braces. -/
def escapeCodePoint (c : Char) : List Char :=
  ['\\', 'u', '{'] ++ Nat.toDigits 16 c.toNat ++ ['}']

/-- A character as it is shown between quotes of the given kind. -/
def quoteChar (quote c : Char) : List Char :=
  if c = '\x00' then ['\\', '0']
  else if c = '\t' then ['\\', 't']
  else if c = '\r' then ['\\', 'r']
  else if c = '\n' then ['\\', 'n']
  else if c = '\\' ∨ c = quote then ['\\', c]
  else if joinsPrevious c ∨ ¬ isPrintable c then escapeCodePoint c
  else [c]

/-- A text between quotes of the given kind. -/
def quoted (quote : Char) (text : String) : String :=
  String.ofList (quote :: (text.toList.flatMap (quoteChar quote) ++ [quote]))

end StagedSandbox.Text
