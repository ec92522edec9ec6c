import Fallback.Text.Blank
import Fallback.Text.Digit
import Fallback.Number.Binary64

/-!
Numerals: texts that spell integers and floating-point numbers.

Both may be surrounded by gaps and start with a sign; their digits may be any decimal digits, with
single underscores between them. `readInteger` refuses more than `digitLimit` digits. `readFloat?`
also takes a point, an exponent and the words for infinity and for what is no number.
-/
namespace Fallback.Numeral

open Fallback.Text

/-- The most digits that an integer numeral may have, and the most that an integer is shown with. -/
def digitLimit : Nat :=
  4300

/-- Why a text is no integer numeral that can be read. -/
inductive Misread
  | malformed
  | tooLong (digits : Nat)
  deriving DecidableEq

/-- A sign, if there is one: whether it is a minus, and the rest. -/
def takeSign : List Char → Bool × List Char
  | '-' :: rest => (true, rest)
  | '+' :: rest => (false, rest)
  | cs => (false, cs)

/-- The text goes on with a digit. -/
def startsWithDigit (cs : List Char) : Bool :=
  cs.head?.any isDigit

/-- The longest run of digits with single underscores between them, and the rest. An underscore
counts only `afterDigit` and before another digit. -/
def takeRun (afterDigit : Bool) : List Char → List Nat × List Char
  | [] => ([], [])
  | c :: rest =>
    match digit? c with
    | some d =>
      let run := takeRun true rest
      (d :: run.1, run.2)
    | none =>
      if c = '_' && afterDigit && startsWithDigit rest then takeRun false rest
      else ([], c :: rest)

/-- The longest run of digits that the text starts with, and the rest. -/
def takeDigits (cs : List Char) : List Nat × List Char :=
  takeRun false cs

/-- The number that digits spell, the first one the highest. -/
def ofDigits (ds : List Nat) : Nat :=
  ds.foldl (fun n d => 10 * n + d) 0

/-- The natural number with a sign. -/
def signed (negative : Bool) (n : Nat) : Int :=
  if negative then -(n : Int) else n

/-- The integer that a text spells. The length is checked before what follows the digits. -/
def readInteger (cs : List Char) : Except Misread Int :=
  let (negative, body) := takeSign (cs.dropWhile isGap)
  let (digits, rest) := takeDigits body
  if digits.isEmpty || rest.head? = some '_' then .error .malformed
  else if digitLimit < digits.length then .error (.tooLong digits.length)
  else if rest.all isGap then .ok (signed negative (ofDigits digits))
  else .error .malformed

/-- What a floating-point numeral spells. -/
inductive FloatReading
  | number (x : Binary64)
  | notANumber
  deriving DecidableEq

/-- The text without the digits after a point, and these digits. -/
def takeFraction : List Char → List Nat × List Char
  | '.' :: rest => takeDigits rest
  | cs => ([], cs)

/-- An exponent, if the text starts with one. -/
def takeExponent (cs : List Char) : Int × List Char :=
  match cs with
  | c :: rest =>
    if c = 'e' || c = 'E' then
      let (negative, body) := takeSign rest
      let (digits, after) := takeDigits body
      if digits.isEmpty then (0, cs) else (signed negative (ofDigits digits), after)
    else (0, cs)
  | [] => (0, [])

/-- A decimal number without a sign, which has a digit before or after the point. -/
def readDecimal? (negative : Bool) (cs : List Char) : Option FloatReading :=
  let (whole, afterWhole) := takeDigits cs
  let (fraction, afterFraction) := takeFraction afterWhole
  let (exponent, rest) := takeExponent afterFraction
  if (whole ++ fraction).isEmpty || !rest.isEmpty then none
  else
    let b := Binary64.ofDecimal (ofDigits (whole ++ fraction)) (exponent - fraction.length)
    some (.number (Binary64.ofMagnitudeBits negative b))

/-- The number that a text spells. -/
def readFloat? (cs : List Char) : Option FloatReading :=
  let (negative, body) := takeSign (strip isGap cs)
  let word := String.ofList (body.map Char.toLower)
  if word = "inf" || word = "infinity" then
    some (.number (Binary64.ofMagnitudeBits negative Binary64.infinityBits))
  else if word = "nan" then some .notANumber
  else readDecimal? negative body

end Fallback.Numeral
