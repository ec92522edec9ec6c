import Fallback.Script.Session

/-!
Integers that values stand for.

A text is read as a numeral, and a number loses its fraction.
-/
namespace Fallback.Script

/-- The most characters of a text that a message about a bad integer quotes. -/
def excerptLength : Nat :=
  200

/-- The integer that a text value spells. A message about it quotes the value. -/
def readInteger (v : Value) (text : String) : Attempt Int := do
  match Numeral.readInteger text.toList with
  | .ok n => return n
  | .error .malformed =>
    let quoted ← Attempt.ask fun s => s.quotedText v
    let excerpt := String.ofList (quoted.toList.take excerptLength)
    Attempt.fail .badValue ("invalid literal for int() with base 10: " ++ excerpt)
  | .error (.tooLong digits) =>
    Attempt.fail .badValue
      ("Exceeds the limit (4300 digits) for integer string conversion: value has " ++
        toString digits ++ " digits; use sys.set_int_max_str_digits() to increase the limit")

/-- The integer that a value stands for. -/
def integerOf (v : Value) : Attempt Int := do
  match (← get).text? v, v.int? with
  | some text, _ => readInteger v text
  | none, some n => return n
  | none, none =>
    match v with
    | .float x _ =>
      match x.truncate? with
      | some n => return n
      | none => Attempt.fail .overflow "cannot convert float infinity to integer"
    | .nan _ => Attempt.fail .badValue "cannot convert float NaN to integer"
    | w =>
      Attempt.fail .badType
        ("int() argument must be a string, a bytes-like object or a real number, not '" ++
          (← Attempt.hostTypeName w) ++ "'")

end Fallback.Script
