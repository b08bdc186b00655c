/-
What floating-point patterns stand for.

One definition covers both formats: they differ in nothing but the widths of their fields.  A
finite pattern stands for a rational number with a sign, where the two zeros differ in the sign
alone.

A format has a smallest positive number, and every other is a multiple of it.  `units` says which
multiple, so that questions about the numbers of a format become questions about natural numbers.
It grows with the exponent, and with the fraction where the exponents are equal; therefore no two
patterns stand for the same thing, unless it is no number at all.
-/
import ClassFormat.FloatingPoint
import Mathlib.Data.Rat.Cast.Order
import Mathlib.Order.WithBot
import Mathlib.Tactic.Ring

namespace ClassFormat

/-- What a pattern stands for. -/
inductive Datum where
  | finite (negative : Bool) (magnitude : ℚ)
  | infinity (negative : Bool)
  | nan
  deriving DecidableEq

namespace Datum

/-- The place on the number line, whose two ends are the infinities. -/
def place? : Datum → Option (WithBot (WithTop ℚ))
  | finite true m => some ↑(↑(-m) : WithTop ℚ)
  | finite false m => some ↑(↑m : WithTop ℚ)
  | infinity true => some ⊥
  | infinity false => some ↑(⊤ : WithTop ℚ)
  | nan => none

/-- The first one comes before the second on the number line, and both are there. -/
def Precedes (d e : Datum) : Prop :=
  ∃ p ∈ d.place?, ∃ q ∈ e.place?, p < q

end Datum

/-- How many bits the fields of a format have. -/
structure FloatFormat where
  exponentBits : Nat
  fractionBits : Nat

namespace FloatFormat

def binary32 : FloatFormat := ⟨8, 23⟩

def binary64 : FloatFormat := ⟨11, 52⟩

variable (F : FloatFormat)

/-- The exponent that is kept for what is not finite. -/
def lastExponent : Nat := 2 ^ F.exponentBits - 1

/-- The exponent that stands for a power of zero. -/
def bias : Nat := 2 ^ (F.exponentBits - 1) - 1

/--
The number of a finite pattern without its sign.  A one stands before the fraction, except with
the exponent zero, which stands for the same power as the exponent one.
-/
def magnitude (exponent fraction : Nat) : ℚ :=
  if exponent = 0 then (fraction / 2 ^ F.fractionBits) * 2 ^ (1 - F.bias : ℤ)
  else (1 + fraction / 2 ^ F.fractionBits) * 2 ^ (exponent - F.bias : ℤ)

/-- What a pattern stands for, by its fields. -/
def datum (sign exponent fraction : Nat) : Datum :=
  if exponent ≠ F.lastExponent then .finite (sign = 1) (F.magnitude exponent fraction)
  else if fraction = 0 then .infinity (sign = 1)
  else .nan

/-- How many times the smallest positive number the number is. -/
def units (exponent fraction : Nat) : Nat :=
  if exponent = 0 then fraction else (2 ^ F.fractionBits + fraction) * 2 ^ (exponent - 1)

variable {F}

theorem units_zero (fraction : Nat) : F.units 0 fraction = fraction := rfl

theorem units_succ (n fraction : Nat) :
    F.units (n + 1) fraction = (2 ^ F.fractionBits + fraction) * 2 ^ n := rfl

theorem magnitude_eq_units (exponent fraction : Nat) :
    F.magnitude exponent fraction =
      F.units exponent fraction * 2 ^ (1 - F.bias - F.fractionBits : ℤ) := by
  have htwo : (2 : ℚ) ≠ 0 := by decide
  have hscale : (2 : ℚ) ^ (1 - F.bias - F.fractionBits : ℤ) =
      2 ^ (1 - F.bias : ℤ) / 2 ^ F.fractionBits := by
    rw [zpow_sub₀ htwo, zpow_natCast]
  rw [magnitude, hscale]
  cases exponent with
  | zero =>
      rw [if_pos rfl, units_zero]
      ring
  | succ n =>
      have hexp : ((n + 1 : Nat) - F.bias : ℤ) = (n : ℤ) + (1 - F.bias) := by omega
      have hone : (1 : ℚ) = 2 ^ F.fractionBits / 2 ^ F.fractionBits :=
        (div_self (pow_ne_zero _ htwo)).symm
      rw [if_neg n.succ_ne_zero, units_succ, hexp, zpow_add₀ htwo, zpow_natCast]
      push_cast
      nth_rewrite 1 [hone]
      ring

variable {e e' f f' s s' : Nat}

theorem units_lt_pow (hf : f < 2 ^ F.fractionBits) : F.units e f < 2 ^ F.fractionBits * 2 ^ e := by
  cases e with
  | zero => simpa [units_zero] using hf
  | succ n =>
      rw [units_succ, Nat.pow_succ', ← Nat.mul_assoc]
      apply Nat.mul_lt_mul_of_pos_right _ (Nat.two_pow_pos n)
      omega

theorem pow_le_units (f n : Nat) : 2 ^ F.fractionBits * 2 ^ n ≤ F.units (n + 1) f := by
  rw [units_succ]
  exact Nat.mul_le_mul_right _ (Nat.le_add_right ..)

/-- A greater exponent makes a greater number. -/
theorem units_lt_of_lt (hf : f < 2 ^ F.fractionBits) (h : e < e') :
    F.units e f < F.units e' f' := by
  obtain ⟨n, rfl⟩ := Nat.exists_eq_add_of_lt h
  calc F.units e f < 2 ^ F.fractionBits * 2 ^ e := units_lt_pow hf
    _ ≤ 2 ^ F.fractionBits * 2 ^ (e + n) :=
      Nat.mul_le_mul_left _ (Nat.pow_le_pow_right Nat.two_pos (Nat.le_add_right e n))
    _ ≤ F.units (e + n + 1) f' := pow_le_units f' (e + n)

theorem fraction_eq_of_units (h : F.units e f = F.units e f') : f = f' := by
  cases e with
  | zero => exact h
  | succ n =>
      rw [units_succ, units_succ] at h
      have := Nat.eq_of_mul_eq_mul_right (Nat.two_pow_pos _) h
      omega

/-- The multiple of the smallest number shows both fields. -/
theorem fields_eq_of_units (hf : f < 2 ^ F.fractionBits) (hf' : f' < 2 ^ F.fractionBits)
    (h : F.units e f = F.units e' f') : e = e' ∧ f = f' := by
  rcases Nat.lt_trichotomy e e' with hlt | rfl | hlt
  · exact absurd h (units_lt_of_lt hf hlt).ne
  · exact ⟨rfl, fraction_eq_of_units h⟩
  · exact absurd h (units_lt_of_lt hf' hlt).ne'

theorem fields_eq_of_magnitude (hf : f < 2 ^ F.fractionBits) (hf' : f' < 2 ^ F.fractionBits)
    (h : F.magnitude e f = F.magnitude e' f') : e = e' ∧ f = f' := by
  rw [magnitude_eq_units, magnitude_eq_units] at h
  have hscale : (2 : ℚ) ^ (1 - F.bias - F.fractionBits : ℤ) ≠ 0 := zpow_ne_zero _ (by decide)
  have hunits : F.units e f = F.units e' f' := by
    exact_mod_cast mul_right_cancel₀ hscale h
  exact fields_eq_of_units hf hf' hunits

theorem datum_eq_finite_iff {negative : Bool} {m : ℚ} :
    F.datum s e f = .finite negative m ↔
      e ≠ F.lastExponent ∧ decide (s = 1) = negative ∧ F.magnitude e f = m := by
  unfold datum
  by_cases he : e = F.lastExponent
  · by_cases hf : f = 0
    · simp [he, hf]
    · simp [he, hf]
  · simp [he]

theorem datum_eq_infinity_iff {negative : Bool} :
    F.datum s e f = .infinity negative ↔
      e = F.lastExponent ∧ f = 0 ∧ decide (s = 1) = negative := by
  unfold datum
  by_cases he : e = F.lastExponent
  · by_cases hf : f = 0
    · simp [he, hf]
    · simp [he, hf]
  · simp [he]

theorem datum_eq_nan_iff : F.datum s e f = .nan ↔ e = F.lastExponent ∧ f ≠ 0 := by
  unfold datum
  by_cases he : e = F.lastExponent
  · by_cases hf : f = 0
    · simp [he, hf]
    · simp [he, hf]
  · simp [he]

/-- **A pattern is determined by what it stands for, if that is a number or an infinity.** -/
theorem fields_eq_of_datum (hs : s < 2) (hs' : s' < 2) (hf : f < 2 ^ F.fractionBits)
    (hf' : f' < 2 ^ F.fractionBits) (hnan : F.datum s e f ≠ .nan)
    (h : F.datum s e f = F.datum s' e' f') : s = s' ∧ e = e' ∧ f = f' := by
  have hsign {negative : Bool} (hn : decide (s = 1) = negative)
      (hn' : decide (s' = 1) = negative) : s = s' := by
    have := decide_eq_decide.mp (hn.trans hn'.symm)
    omega
  cases hd : F.datum s e f with
  | finite negative m =>
      obtain ⟨-, hn, hm⟩ := datum_eq_finite_iff.mp hd
      obtain ⟨-, hn', hm'⟩ := datum_eq_finite_iff.mp (h.symm.trans hd)
      exact ⟨hsign hn hn', fields_eq_of_magnitude hf hf' (hm.trans hm'.symm)⟩
  | infinity negative =>
      obtain ⟨he, hf, hn⟩ := datum_eq_infinity_iff.mp hd
      obtain ⟨he', hf', hn'⟩ := datum_eq_infinity_iff.mp (h.symm.trans hd)
      exact ⟨hsign hn hn', he.trans he'.symm, hf.trans hf'.symm⟩
  | nan => exact absurd hd hnan

end FloatFormat

/-! ### The two formats -/

namespace Binary32

variable {x y : Binary32}

/-- What the pattern stands for. -/
def datum (x : Binary32) : Datum :=
  FloatFormat.binary32.datum x.sign x.exponent x.fraction

theorem bits_eq (x : Binary32) :
    x.bits.toNat = x.sign * 2 ^ 31 + x.exponent * 2 ^ 23 + x.fraction := by
  have := x.bits.toNat_lt
  rw [sign, exponent, fraction, Nat.shiftRight_eq_div_pow, Nat.shiftRight_eq_div_pow]
  omega

theorem sign_lt (x : Binary32) : x.sign < 2 := by
  have := x.bits.toNat_lt
  rw [sign, Nat.shiftRight_eq_div_pow]
  omega

theorem exponent_lt (x : Binary32) : x.exponent < 256 :=
  Nat.mod_lt _ (by decide)

theorem fraction_lt (x : Binary32) : x.fraction < 2 ^ 23 :=
  Nat.mod_lt _ (by decide)

theorem isNaN_iff : x.isNaN = true ↔ x.datum = .nan := by
  rw [datum, FloatFormat.datum_eq_nan_iff, isNaN, Bool.and_eq_true, beq_iff_eq, bne_iff_ne]
  rfl

theorem eq_of_datum (hx : x.isNaN = false) (h : x.datum = y.datum) : x = y := by
  have hnan : x.datum ≠ .nan := by
    intro hd
    rw [isNaN_iff.mpr hd] at hx
    cases hx
  obtain ⟨hs, he, hf⟩ := FloatFormat.fields_eq_of_datum x.sign_lt y.sign_lt x.fraction_lt
    y.fraction_lt hnan h
  have hbits : x.bits.toNat = y.bits.toNat := by rw [bits_eq, bits_eq, hs, he, hf]
  exact congrArg mk (UInt32.toNat_inj.mp hbits)

end Binary32

namespace Binary64

/-- The sign bit. -/
def sign (x : Binary64) : Nat := x.bits.toNat >>> 63

/-- What the pattern stands for. -/
def datum (x : Binary64) : Datum :=
  FloatFormat.binary64.datum x.sign x.exponent x.fraction

theorem isNaN_iff {x : Binary64} : x.isNaN = true ↔ x.datum = .nan := by
  rw [datum, FloatFormat.datum_eq_nan_iff, isNaN, Bool.and_eq_true, beq_iff_eq, bne_iff_ne]
  rfl

section Parts

variable {s e f : Nat}

theorem toNat_bits_ofParts (hs : s < 2) (he : e < 2048) (hf : f < 2 ^ 52) :
    (ofParts s e f).bits.toNat = s * 2 ^ 63 + e * 2 ^ 52 + f := by
  have hlt : s * 2 ^ 63 + e * 2 ^ 52 + f < UInt64.size := by
    show _ < 2 ^ 64
    omega
  rw [ofParts, Nat.shiftLeft_eq, Nat.shiftLeft_eq, UInt64.toNat_ofNat_of_lt' hlt]

theorem sign_ofParts (hs : s < 2) (he : e < 2048) (hf : f < 2 ^ 52) :
    (ofParts s e f).sign = s := by
  rw [sign, toNat_bits_ofParts hs he hf, Nat.shiftRight_eq_div_pow]
  omega

theorem exponent_ofParts (hs : s < 2) (he : e < 2048) (hf : f < 2 ^ 52) :
    (ofParts s e f).exponent = e := by
  rw [exponent, toNat_bits_ofParts hs he hf, Nat.shiftRight_eq_div_pow]
  omega

theorem fraction_ofParts (hs : s < 2) (he : e < 2048) (hf : f < 2 ^ 52) :
    (ofParts s e f).fraction = f := by
  rw [fraction, toNat_bits_ofParts hs he hf]
  omega

theorem datum_ofParts (hs : s < 2) (he : e < 2048) (hf : f < 2 ^ 52) :
    (ofParts s e f).datum = FloatFormat.binary64.datum s e f := by
  rw [datum, sign_ofParts hs he hf, exponent_ofParts hs he hf, fraction_ofParts hs he hf]

end Parts

end Binary64

end ClassFormat
