import Fallback.Number.Binary64

/-!
Decimal text of binary numbers: the fewest digits that read back.

`shortest?` tries one to seventeen digits. On the grid of each length it tests the two neighbours of
the value; the first grid with a hit gives the digits, and of two hits the nearer one. `display`
writes them: positional notation between 10 ^ -4 and 10 ^ 16, always with a point, and an exponent
of at least two digits outside.
-/
namespace Fallback.Binary64

/-- The largest power of ten that does not exceed `num / den`, for positive numbers. -/
def decimalExponent (num den : Nat) : Int :=
  if den ≤ num then ((Nat.toDigits 10 (num / den)).length : Int) - 1
  else -((Nat.toDigits 10 ((den + num - 1) / num - 1)).length : Int)

/-- Digits `d` and exponent `e` of the decimal number `d * 10 ^ e`. -/
structure Decimal where
  digits : Nat
  exponent : Int

/-- On the grid of `count` digits, the neighbour of `num / den` that reads back as `b`. -/
def onGrid? (b num den count : Nat) : Option Decimal :=
  let e := decimalExponent num den - (count - 1 : Nat)
  let scaledNum := num * Nat.pow 10 (-e).toNat
  let scaledDen := den * Nat.pow 10 e.toNat
  let low := scaledNum / scaledDen
  let rest := scaledNum % scaledDen
  let lowFits := ofDecimal low e = b
  let highFits := ofDecimal (low + 1) e = b
  let lowIsNearer := 2 * rest < scaledDen || (2 * rest = scaledDen && low % 2 = 0)
  if lowFits && (lowIsNearer || !highFits) then some ⟨low, e⟩
  else if highFits then some ⟨low + 1, e⟩
  else none

/-- The first hit among grids of growing length. -/
def firstOnGrid? (b num den : Nat) : List Nat → Option Decimal
  | [] => none
  | count :: more => (onGrid? b num den count).or (firstOnGrid? b num den more)

/-- The shortest decimal that reads back as the finite magnitude `m * 2 ^ q`, whose pattern is
`b`. -/
def shortest? (b m : Nat) (q : Int) : Option Decimal :=
  firstOnGrid? b (m * Nat.pow 2 q.toNat) (Nat.pow 2 (-q).toNat) (List.range' 1 17)

/-- The digits without zeros at their end, together with the place of the point after the first
digit. -/
def Decimal.normalised (d : Decimal) : List Char × Int :=
  let cs := Nat.toDigits 10 d.digits
  let kept := (cs.reverse.dropWhile (· = '0')).reverse
  (if kept.isEmpty then ['0'] else kept, d.exponent + (cs.length - 1 : Nat))

/-- An exponent with its sign and at least two digits. -/
def exponentText (e : Int) : List Char :=
  let digits := Nat.toDigits 10 e.natAbs
  let padded := if digits.length < 2 then '0' :: digits else digits
  'e' :: (if e < 0 then '-' else '+') :: padded

/-- Digits with the point after the first one, shifted by `e` places. -/
def layout (digits : List Char) (e : Int) : List Char :=
  if e < -4 || 16 ≤ e then
    match digits with
    | d :: more => d :: (if more.isEmpty then [] else '.' :: more) ++ exponentText e
    | [] => []
  else if e < 0 then
    '0' :: '.' :: List.replicate (-e - 1).toNat '0' ++ digits
  else
    let whole := e.toNat + 1
    let before := digits.take whole ++ List.replicate (whole - digits.length) '0'
    let after := digits.drop whole
    before ++ '.' :: (if after.isEmpty then ['0'] else after)

/-- The text of a magnitude. -/
def magnitudeText (x : Binary64) : List Char :=
  match x.magnitude with
  | .infinite => ['i', 'n', 'f']
  | .finite m q =>
    if m = 0 then ['0', '.', '0']
    else match shortest? x.magnitudeBits m q with
      | some d => layout d.normalised.1 d.normalised.2
      | none => []

/-- The text of a number. -/
def display (x : Binary64) : String :=
  String.ofList (if x.isNegative then '-' :: x.magnitudeText else x.magnitudeText)

end Fallback.Binary64
