/-
Modified UTF-8, the encoding of the strings in a class file.

It differs from standard UTF-8 in two ways: NUL is written `C0 80`, and a supplementary character
is written as its two surrogates, three bytes each.  Surrogates may also stand alone.  `encode`
writes the units of a string one by one.  `decode` is lenient: bytes that are standard UTF-8 are
read as such, so a plain NUL byte and a four-byte form are accepted too.
-/
import ClassFormat.Text.Utf8
import ClassFormat.Text.Utf16

namespace ClassFormat.ModifiedUtf8

/-- The bytes of one UTF-16 unit. -/
def encodeUnit (unit : UInt16) : List UInt8 :=
  let n := unit.toNat
  if n = 0 then [0xC0, 0x80]
  else if n < 0x80 then [.ofNat n]
  else if n < 0x800 then [.ofNat (0xC0 + n / 0x40), .ofNat (0x80 + n % 0x40)]
  else [.ofNat (0xE0 + n / 0x1000), .ofNat (0x80 + n / 0x40 % 0x40), .ofNat (0x80 + n % 0x40)]

/-- The bytes of a sequence of UTF-16 units, each written on its own. -/
def encode (units : List UInt16) : List UInt8 :=
  units.flatMap encodeUnit

/-- Writes the two-byte form of NUL as a plain zero byte. -/
def expandNul : List UInt8 → List UInt8
  | [] => []
  | [byte] => [byte]
  | byte :: next :: rest =>
    if byte = 0xC0 && next = 0x80 then 0 :: expandNul rest else byte :: expandNul (next :: rest)

/--
The text of bytes that are not standard UTF-8: surrogates are read one by one, and the halves
of a pair are then joined.
-/
def decodeExtended (bytes : List UInt8) : Option Text :=
  (Utf8.decode .allowed (expandNul bytes)).map fun t => Text.ofUtf16 t.toUtf16

/-- The text of a sequence of bytes, or `none` if it is neither standard nor modified UTF-8. -/
def decode (bytes : List UInt8) : Option Text :=
  match Utf8.decode .refused bytes with
  | some t => some t
  | none => decodeExtended bytes

end ClassFormat.ModifiedUtf8
