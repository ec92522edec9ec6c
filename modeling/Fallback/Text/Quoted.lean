import Fallback.Text.Printable

/-!
Quoted text: how a text is shown inside a message or inside another value.

`quote` puts single quotes around the text, or double ones when it holds a single quote and no
double one. Unprintable characters are shown by their code points.
-/
namespace Fallback.Text

/-- The single quote. -/
def apostrophe : Char := '\x27'

/-- The double quote. -/
def quotation : Char := '\x22'

/-- The sign that starts an escape. -/
def backslash : Char := '\x5c'

/-- The hexadecimal digit for a number below sixteen. -/
def hexDigit (n : Nat) : Char :=
  Nat.digitChar (n % 16)

/-- The last `width` hexadecimal digits of a number. -/
def hexDigits : Nat → Nat → List Char
  | 0, _ => []
  | width + 1, n => hexDigits width (n / 16) ++ [hexDigit n]

/-- An unprintable character by its code point, in two, four or eight digits. -/
def escapeCode (n : Nat) : List Char :=
  if n < 0x100 then backslash :: 'x' :: hexDigits 2 n
  else if n < 0x10000 then backslash :: 'u' :: hexDigits 4 n
  else backslash :: 'U' :: hexDigits 8 n

/-- One character between quotes of the kind `mark`. -/
def escapeChar (mark c : Char) : List Char :=
  if c = mark || c = backslash then [backslash, c]
  else if c = '\n' then [backslash, 'n']
  else if c = '\r' then [backslash, 'r']
  else if c = '\t' then [backslash, 't']
  else if isPrintable c then [c]
  else escapeCode c.toNat

/-- Double quotes serve a text that holds a single quote and no double one. -/
def quoteMark (cs : List Char) : Char :=
  if cs.contains apostrophe && !cs.contains quotation then quotation else apostrophe

/-- The text between quotes, with escapes. -/
def quote (s : String) : String :=
  let mark := quoteMark s.toList
  String.ofList (mark :: (s.toList.flatMap (escapeChar mark) ++ [mark]))

end Fallback.Text
