/-
UTF-16, with surrogates allowed to stand alone.

`toUtf16` writes every code point in one or two units and `ofUtf16` reads the units back: a high
surrogate directly followed by a low one becomes one supplementary character, every other unit
becomes a code point of its own.  Reading back what was written therefore joins the halves of a
pair that stood side by side as two code points, and changes nothing else.
-/
import ClassFormat.Text.Basic

namespace ClassFormat

/-- The first half of a surrogate pair. -/
def isHighSurrogate (unit : UInt16) : Bool :=
  0xD800 ≤ unit && unit < 0xDC00

/-- The second half of a surrogate pair. -/
def isLowSurrogate (unit : UInt16) : Bool :=
  0xDC00 ≤ unit && unit < 0xE000

namespace CodePoint

/-- The one or two units of a code point. -/
def toUtf16 (p : CodePoint) : List UInt16 :=
  let n := p.toNat
  if n < 0x10000 then [.ofNat n]
  else [.ofNat (0xD800 + (n - 0x10000) / 0x400), .ofNat (0xDC00 + (n - 0x10000) % 0x400)]

/-- The code point that a single unit stands for. -/
def ofUnit (unit : UInt16) : CodePoint :=
  if h : 0xD800 ≤ unit.toNat ∧ unit.toNat < 0xE000 then
    surrogate ⟨unit.toNat - 0xD800, by omega⟩
  else scalar (Char.ofNat unit.toNat)

/-- The supplementary character that a surrogate pair stands for. -/
def ofPair (high low : UInt16) : CodePoint :=
  scalar (Char.ofNat (0x10000 + (high.toNat % 0x400) * 0x400 + low.toNat % 0x400))

end CodePoint

namespace Text

/-- The units of a text. -/
def toUtf16 (t : Text) : List UInt16 :=
  t.flatMap CodePoint.toUtf16

/-- The text of a sequence of units; every sequence has one. -/
def ofUtf16 : List UInt16 → Text
  | [] => []
  | [unit] => [.ofUnit unit]
  | unit :: next :: rest =>
    if isHighSurrogate unit && isLowSurrogate next then .ofPair unit next :: ofUtf16 rest
    else .ofUnit unit :: ofUtf16 (next :: rest)

end Text

end ClassFormat
