/-
Blanks: the code points that Unicode counts as white space, and the four information separators
`1C` to `1F`.
-/
import ClassFormat.Text.Basic

namespace ClassFormat

/-- Whether the code point separates groups, records or units of information. -/
def CodePoint.isInformationSeparator (p : CodePoint) : Bool :=
  0x1C ≤ p.toNat && p.toNat ≤ 0x1F

/-- Whether the code point is white space in the sense of Unicode. -/
def CodePoint.isWhiteSpace (p : CodePoint) : Bool :=
  let n := p.toNat
  (0x09 ≤ n && n ≤ 0x0D) || n == 0x20 || n == 0x85 || n == 0xA0 || n == 0x1680
    || (0x2000 ≤ n && n ≤ 0x200A) || n == 0x2028 || n == 0x2029 || n == 0x202F || n == 0x205F
    || n == 0x3000

/-- Whether the code point is a blank. -/
def CodePoint.isBlank (p : CodePoint) : Bool :=
  p.isWhiteSpace || p.isInformationSeparator

namespace Text

/-- The text without the code points of a class at its two ends. -/
def trim (drop : CodePoint → Bool) (t : Text) : Text :=
  ((t.dropWhile drop).reverse.dropWhile drop).reverse

end Text

end ClassFormat
