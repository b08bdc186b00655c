/-
Numbers as bytes, and lists with their count in front.

`Encoder` has one writer for each reader of `Decoder`.  They all rest on
`bigEndianBytes`, which writes a number in a fixed number of bytes; it and
`bigEndian` undo each other as long as the number fits.  A number that does not
fit is cut off at the front, so whoever writes a count has to see to it that the
count fits its field.
-/
import ClassFormat.Bytes.Decoder
import Mathlib.Algebra.Group.Nat.Defs
import Mathlib.Data.List.Induction

namespace ClassFormat

/-- The last `width` digits of a number to the base 256, the most significant first. -/
def bigEndianBytes : Nat → Nat → List UInt8
  | 0, _ => []
  | width + 1, n => bigEndianBytes width (n / 256) ++ [.ofNat n]

@[simp] theorem length_bigEndianBytes (width n : Nat) :
    (bigEndianBytes width n).length = width := by
  induction width generalizing n with
  | zero => rfl
  | succ width ih => simp [bigEndianBytes, ih]

theorem bigEndian_append_singleton (w : List UInt8) (b : UInt8) :
    bigEndian (w ++ [b]) = bigEndian w * 256 + b.toNat := by
  simp [bigEndian]

theorem bigEndian_lt (w : List UInt8) : bigEndian w < 256 ^ w.length := by
  induction w using List.reverseRecOn with
  | nil => simp [bigEndian]
  | append_singleton w b ih =>
      have hb : b.toNat < 256 := b.toNat_lt
      rw [bigEndian_append_singleton, List.length_append, List.length_singleton, Nat.pow_succ]
      omega

theorem bigEndian_bigEndianBytes (width : Nat) :
    ∀ n, n < 256 ^ width → bigEndian (bigEndianBytes width n) = n := by
  induction width with
  | zero =>
      intro n hn
      have h0 : n = 0 := by simpa using hn
      rw [h0]
      rfl
  | succ width ih =>
      intro n hn
      have hdiv : n / 256 < 256 ^ width := by
        rw [Nat.pow_succ] at hn
        exact Nat.div_lt_of_lt_mul (by omega)
      rw [bigEndianBytes, bigEndian_append_singleton, ih _ hdiv, UInt8.toNat_ofNat']
      omega

theorem bigEndianBytes_bigEndian (w : List UInt8) :
    bigEndianBytes w.length (bigEndian w) = w := by
  induction w using List.reverseRecOn with
  | nil => rfl
  | append_singleton w b ih =>
      have hb : b.toNat < 256 := b.toNat_lt
      have hquot : (bigEndian w * 256 + b.toNat) / 256 = bigEndian w := by omega
      have hlast : UInt8.ofNat (bigEndian w * 256 + b.toNat) = b := by
        apply UInt8.toNat_inj.mp
        rw [UInt8.toNat_ofNat']
        omega
      rw [bigEndian_append_singleton, List.length_append, List.length_singleton,
        bigEndianBytes, hquot, hlast, ih]

namespace Encoder

/-- An unsigned number of one byte. -/
def u1 (n : UInt8) : List UInt8 := bigEndianBytes 1 n.toNat

/-- An unsigned number of two bytes. -/
def u2 (n : UInt16) : List UInt8 := bigEndianBytes 2 n.toNat

/-- An unsigned number of four bytes. -/
def u4 (n : UInt32) : List UInt8 := bigEndianBytes 4 n.toNat

/-- A signed number of four bytes. -/
def i4 (n : Int32) : List UInt8 := bigEndianBytes 4 n.toUInt32.toNat

/-- A signed number of eight bytes. -/
def i8 (n : Int64) : List UInt8 := bigEndianBytes 8 n.toUInt64.toNat

/-- A floating-point number of four bytes. -/
def f4 (x : Binary32) : List UInt8 := bigEndianBytes 4 x.bits.toNat

/-- A floating-point number of eight bytes. -/
def f8 (x : Binary64) : List UInt8 := bigEndianBytes 8 x.bits.toNat

/-- A list with its count, a number of two bytes, in front. -/
def counted {α : Type} (encode : α → List UInt8) (xs : List α) : List UInt8 :=
  u2 (.ofNat xs.length) ++ xs.flatMap encode

@[simp] theorem length_u1 (n : UInt8) : (u1 n).length = 1 := length_bigEndianBytes ..

@[simp] theorem length_u2 (n : UInt16) : (u2 n).length = 2 := length_bigEndianBytes ..

end Encoder

end ClassFormat
