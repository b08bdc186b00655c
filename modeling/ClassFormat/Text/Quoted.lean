/-
Text in quotation marks, for messages.

The quoted form shows on one line exactly which code points a text holds.  Single quotes enclose
it, or double quotes if the text holds single quotes only.  The enclosing quote and the backslash
are escaped by a backslash, line ends and tabs by a letter, and a code point without a glyph by
its number in two, four or eight hexadecimal digits.
-/
import ClassFormat.Text.Numeral
import ClassFormat.Text.Unprintable

namespace ClassFormat

/-- The escape that names a code point by its number. -/
def CodePoint.numberEscape (p : CodePoint) : Text :=
  let n := p.toNat
  if n < 0x100 then "\\x" ++ Text.hexPadded 2 n
  else if n < 0x10000 then "\\u" ++ Text.hexPadded 4 n
  else "\\U" ++ Text.hexPadded 8 n

/-- How one code point is shown between the given quotes. -/
def CodePoint.quoted (quote : Char) (p : CodePoint) : Text :=
  if p = .scalar quote || p = .scalar '\\' then [.scalar '\\', p]
  else if p = .scalar '\n' then "\\n"
  else if p = .scalar '\r' then "\\r"
  else if p = .scalar '\t' then "\\t"
  else if p.isUnprintable then p.numberEscape
  else [p]

namespace Text

/-- The quotation mark that encloses a text. -/
def enclosingQuote (t : Text) : Char :=
  if .scalar '\'' ∈ t ∧ .scalar '"' ∉ t then '"' else '\''

/-- The text in quotation marks. -/
def quoted (t : Text) : Text :=
  let quote := t.enclosingQuote
  .scalar quote :: t.flatMap (CodePoint.quoted quote) ++ [.scalar quote]

end Text

end ClassFormat
