/-
Floating-point constants as bit patterns.

A class file holds numbers in the binary32 and binary64 formats of IEEE 754.  They are kept as the
patterns read, and `Binary32.widen` gives the binary64 pattern of the same number.  Every finite
binary32 number has one, since binary64 has more bits for both exponent and fraction.  A subnormal
binary32 number becomes a normal one: its leading bit moves out of the fraction.
-/

namespace ClassFormat

/-- A number of the binary32 format, by its bits. -/
structure Binary32 where
  bits : UInt32
  deriving DecidableEq, Repr

/-- A number of the binary64 format, by its bits. -/
structure Binary64 where
  bits : UInt64
  deriving DecidableEq, Repr

namespace Binary32

/-- The sign bit. -/
def sign (x : Binary32) : Nat := x.bits.toNat >>> 31

/-- The eight bits of the exponent. -/
def exponent (x : Binary32) : Nat := x.bits.toNat >>> 23 % 256

/-- The twenty-three bits of the fraction. -/
def fraction (x : Binary32) : Nat := x.bits.toNat % 0x800000

/-- Whether the pattern stands for no number. -/
def isNaN (x : Binary32) : Bool := x.exponent == 255 && x.fraction != 0

end Binary32

namespace Binary64

/-- The pattern with a given sign, exponent and fraction. -/
def ofParts (sign exponent fraction : Nat) : Binary64 :=
  ⟨.ofNat (sign <<< 63 + exponent <<< 52 + fraction)⟩

/-- The eleven bits of the exponent. -/
def exponent (x : Binary64) : Nat := x.bits.toNat >>> 52 % 2048

/-- The fifty-two bits of the fraction. -/
def fraction (x : Binary64) : Nat := x.bits.toNat % 0x10000000000000

/-- Whether the pattern stands for no number. -/
def isNaN (x : Binary64) : Bool := x.exponent == 2047 && x.fraction != 0

end Binary64

/--
The binary64 pattern of the same number; infinities and patterns that stand for no number go
to their like.  The two exponents are biased by 127 and 1023.
-/
def Binary32.widen (x : Binary32) : Binary64 :=
  if x.exponent = 255 then .ofParts x.sign 2047 (x.fraction <<< 29)
  else if x.exponent ≠ 0 then .ofParts x.sign (x.exponent + 896) (x.fraction <<< 29)
  else if x.fraction = 0 then .ofParts x.sign 0 0
  else
    let lead := x.fraction.log2
    .ofParts x.sign (lead + 874) ((x.fraction - 1 <<< lead) <<< (52 - lead))

end ClassFormat
