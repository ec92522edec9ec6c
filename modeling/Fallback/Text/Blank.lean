/-!
Blank characters.

`isBlank` is the class that trimming removes: the ASCII blanks, the four separators U+001C to U+001F
and the blanks of Unicode 14 outside ASCII. `isGap` is the narrower class that may surround a
numeral: it leaves out the four separators.
-/
namespace Fallback.Text

/-- The blanks between tabulator and carriage return, and the space. -/
def isAsciiGap (c : Char) : Bool :=
  (9 ≤ c.toNat && c.toNat ≤ 13) || c = ' '

/-- The blanks outside ASCII. -/
def isWideBlank (c : Char) : Bool :=
  let n := c.toNat
  n = 0x85 || n = 0xA0 || n = 0x1680 || (0x2000 ≤ n && n ≤ 0x200A) || n = 0x2028 || n = 0x2029 ||
    n = 0x202F || n = 0x205F || n = 0x3000

/-- Blanks that may stand before and after a numeral. -/
def isGap (c : Char) : Bool :=
  isAsciiGap c || isWideBlank c

/-- Blanks that trimming removes. -/
def isBlank (c : Char) : Bool :=
  isGap c || (0x1C ≤ c.toNat && c.toNat ≤ 0x1F)

/-- The text without the characters of a class at its two ends. -/
def strip (p : Char → Bool) (cs : List Char) : List Char :=
  ((cs.dropWhile p).reverse.dropWhile p).reverse

/-- The text without blanks at its two ends. -/
def trim (cs : List Char) : List Char :=
  strip isBlank cs

theorem isBlank_of_isGap {c : Char} (h : isGap c = true) : isBlank c = true := by
  simp [isBlank, h]

end Fallback.Text
