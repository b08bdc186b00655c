/-
Flags as bits and as masks.

A flag is looked up by the position of its bit.  That is the same as to ask whether the
word meets the mask with that one bit, for negative words as well.
-/
import Mathlib.Data.Nat.Bitwise
import ClassFormat.AccessFlags

namespace ClassFormat.AccessFlags

theorem has_ofNat (word : Nat) (flag : AccessFlag) :
    has ⟨Int.ofNat word⟩ flag = word.testBit flag.bit := by
  show (Int.ofNat (word >>> flag.bit) % 2 == 1) = _
  rw [Nat.testBit, Nat.one_and_eq_mod_two, Int.ofNat_eq_natCast]
  rcases Nat.mod_two_eq_zero_or_one (word >>> flag.bit) with h | h
  · rw [h, show ((word >>> flag.bit : Nat) : Int) % 2 = 0 by omega]
    rfl
  · rw [h, show ((word >>> flag.bit : Nat) : Int) % 2 = 1 by omega]
    rfl

/-- The bits of a negative word are those of a natural number, turned over. -/
theorem has_negSucc (word : Nat) (flag : AccessFlag) :
    has ⟨Int.negSucc word⟩ flag = !word.testBit flag.bit := by
  show (Int.negSucc (word >>> flag.bit) % 2 == 1) = _
  rw [Nat.testBit, Nat.one_and_eq_mod_two]
  rcases Nat.mod_two_eq_zero_or_one (word >>> flag.bit) with h | h
  · rw [h, show Int.negSucc (word >>> flag.bit) % 2 = 1 by omega]
    rfl
  · rw [h, show Int.negSucc (word >>> flag.bit) % 2 = 0 by omega]
    rfl

/-- Of the sixteen bits of a class file, a flag is the one at its position. -/
theorem has_ofUInt16 (word : UInt16) (flag : AccessFlag) :
    (ofUInt16 word).has flag = word.toNat.testBit flag.bit :=
  has_ofNat word.toNat flag

/-- **A flag is set exactly if the word meets the mask of that flag.** -/
theorem has_eq_meets (flags : AccessFlags) (flag : AccessFlag) :
    flags.has flag = flags.meets (Int.ofNat (2 ^ flag.bit)) := by
  obtain ⟨word⟩ := flags
  cases word with
  | ofNat word =>
      rw [has_ofNat]
      show _ = (word &&& 2 ^ flag.bit != 0)
      rw [Nat.and_two_pow]
      cases word.testBit flag.bit with
      | true => simp
      | false => simp
  | negSucc word =>
      rw [has_negSucc]
      show _ = (2 ^ flag.bit &&& word != 2 ^ flag.bit)
      rw [Nat.two_pow_and]
      have hmask : 0 ≠ 2 ^ flag.bit := (Nat.two_pow_pos _).ne
      cases word.testBit flag.bit with
      | true => simp
      | false => simp [hmask]

/-- Minus two has every flag but the public one. -/
example : has ⟨-2⟩ .accPublic = false ∧ has ⟨-2⟩ .accModule = true := by decide

end ClassFormat.AccessFlags
