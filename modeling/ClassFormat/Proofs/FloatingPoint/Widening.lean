/-
Widening a floating-point number keeps it.

The smallest positive number of the narrow format is 2 to the power of 925 times that of the wide
one.  So a finite pattern is widened exactly if the multiple that it stands for grows by that
factor.  A normal number keeps its fraction, moved to the top of the wider field, and its exponent
is counted from the other bias.  A subnormal number has the same exponent as all others of its
kind, and its size shows in the fraction alone; the leading bit of the fraction becomes the one
that stands before the fraction, and how far up it stood becomes the exponent.

A class file is read in several places where such a number can occur, and at all of them it is the
widened pattern that is handed out.
-/
import ClassFormat.Bytes.Session
import ClassFormat.Member
import ClassFormat.Proofs.Annotation.Layout
import ClassFormat.Proofs.Bytes.Reading
import ClassFormat.Proofs.FloatingPoint.Values

namespace ClassFormat

open FloatFormat (binary32 binary64)

/-! ### The fields of the wide pattern -/

/-- The powers of two between the smallest positive numbers of the formats. -/
def gap : Nat :=
  binary64.bias + binary64.fractionBits - (binary32.bias + binary32.fractionBits)

theorem gap_eq : gap = 925 := by decide

/-- The fields of a wide pattern stand for the same as those of a narrow one. -/
structure SameNumber (e f e' f' : Nat) : Prop where
  exponent_lt : e' < 2048
  fraction_lt : f' < 2 ^ 52
  last_iff : e' = 2047 ↔ e = 255
  infinite_iff : e = 255 → (f' = 0 ↔ f = 0)
  units_eq : e ≠ 255 → binary64.units e' f' = binary32.units e f * 2 ^ gap

namespace SameNumber

variable {e f : Nat}

/-- Infinities, and what is no number. -/
theorem special (hf : f < 2 ^ 23) : SameNumber 255 f 2047 (f <<< 29) := by
  rw [Nat.shiftLeft_eq]
  refine ⟨by decide, by omega, by decide, fun _ => by omega, fun h => absurd rfl h⟩

theorem normal (hzero : e ≠ 0) (he : e < 255) (hf : f < 2 ^ 23) :
    SameNumber e f (e + 896) (f <<< 29) := by
  rw [Nat.shiftLeft_eq]
  refine ⟨by omega, by omega, by omega, fun h => absurd h he.ne, fun _ => ?_⟩
  obtain ⟨n, rfl⟩ := Nat.exists_eq_add_one_of_ne_zero hzero
  have hsignificand : 2 ^ 52 + f * 2 ^ 29 = (2 ^ 23 + f) * 2 ^ 29 := by omega
  have hpower : 29 + (n + 896) = n + gap := by rw [gap_eq]; omega
  show binary64.units (n + 896 + 1) (f * 2 ^ 29) = _
  rw [FloatFormat.units_succ, FloatFormat.units_succ]
  calc (2 ^ 52 + f * 2 ^ 29) * 2 ^ (n + 896)
      = (2 ^ 23 + f) * (2 ^ 29 * 2 ^ (n + 896)) := by rw [hsignificand, Nat.mul_assoc]
    _ = (2 ^ 23 + f) * (2 ^ n * 2 ^ gap) := by rw [← Nat.pow_add, ← Nat.pow_add, hpower]
    _ = (2 ^ 23 + f) * 2 ^ n * 2 ^ gap := (Nat.mul_assoc ..).symm

theorem zero : SameNumber 0 0 0 0 := by
  refine ⟨by decide, by decide, by decide, fun h => absurd h (by decide), fun _ => ?_⟩
  rw [FloatFormat.units_zero, FloatFormat.units_zero, Nat.zero_mul]

/-- The leading bit of the fraction is the one that then stands before it. -/
theorem subnormal {lead : Nat} (hlow : 2 ^ lead ≤ f) (hhigh : f < 2 ^ (lead + 1))
    (hlead : lead < 23) :
    SameNumber 0 f (lead + 874) ((f - 1 <<< lead) <<< (52 - lead)) := by
  have hpower : 52 - lead + (lead + 873) = gap := by rw [gap_eq]; omega
  have hwhole : 2 ^ 52 = 2 ^ lead * 2 ^ (52 - lead) := by
    rw [← Nat.pow_add, Nat.add_sub_cancel' (by omega)]
  have hsignificand : 2 ^ 52 + (f - 2 ^ lead) * 2 ^ (52 - lead) = f * 2 ^ (52 - lead) := by
    rw [hwhole, ← Nat.add_mul, Nat.add_sub_cancel' hlow]
  rw [Nat.shiftLeft_eq, Nat.shiftLeft_eq, Nat.one_mul]
  refine ⟨by omega, ?_, by omega, fun h => absurd h (by decide), fun _ => ?_⟩
  · rw [hwhole]
    apply Nat.mul_lt_mul_of_pos_right _ (Nat.two_pow_pos _)
    rw [Nat.pow_succ] at hhigh
    omega
  · show binary64.units (lead + 873 + 1) _ = _
    rw [FloatFormat.units_succ, FloatFormat.units_zero]
    calc (2 ^ 52 + (f - 2 ^ lead) * 2 ^ (52 - lead)) * 2 ^ (lead + 873)
        = f * (2 ^ (52 - lead) * 2 ^ (lead + 873)) := by rw [hsignificand, Nat.mul_assoc]
      _ = f * 2 ^ gap := by rw [← Nat.pow_add, hpower]

/-- Fields of the same number stand for the same, with either sign. -/
theorem datum_eq {s e' f' : Nat} (h : SameNumber e f e' f') :
    binary64.datum s e' f' = binary32.datum s e f := by
  have hscale : (2 : ℚ) ^ gap * 2 ^ (1 - binary64.bias - binary64.fractionBits : ℤ) =
      2 ^ (1 - binary32.bias - binary32.fractionBits : ℤ) := by
    rw [← zpow_natCast, ← zpow_add₀ (by decide : (2 : ℚ) ≠ 0), gap_eq]
    rfl
  cases hd : binary32.datum s e f with
  | finite negative m =>
      obtain ⟨he, hs, rfl⟩ := FloatFormat.datum_eq_finite_iff.mp hd
      refine FloatFormat.datum_eq_finite_iff.mpr ⟨mt h.last_iff.mp he, hs, ?_⟩
      rw [FloatFormat.magnitude_eq_units, FloatFormat.magnitude_eq_units, h.units_eq he,
        Nat.cast_mul, Nat.cast_pow, Nat.cast_two, mul_assoc, hscale]
  | infinity negative =>
      obtain ⟨he, hf, hs⟩ := FloatFormat.datum_eq_infinity_iff.mp hd
      exact FloatFormat.datum_eq_infinity_iff.mpr
        ⟨h.last_iff.mpr he, (h.infinite_iff he).mpr hf, hs⟩
  | nan =>
      obtain ⟨he, hf⟩ := FloatFormat.datum_eq_nan_iff.mp hd
      exact FloatFormat.datum_eq_nan_iff.mpr
        ⟨h.last_iff.mpr he, mt (h.infinite_iff he).mp hf⟩

end SameNumber

/-! ### Widening -/

namespace Binary32

/-- Widening keeps the sign and gives fields of the same number. -/
theorem widen_eq_ofParts (x : Binary32) :
    ∃ e f, x.widen = .ofParts x.sign e f ∧ SameNumber x.exponent x.fraction e f := by
  have hf := x.fraction_lt
  have he := x.exponent_lt
  unfold widen
  by_cases hspecial : x.exponent = 255
  · rw [if_pos hspecial, hspecial]
    exact ⟨_, _, rfl, .special hf⟩
  · rw [if_neg hspecial]
    by_cases hexp : x.exponent = 0
    · rw [if_neg (not_not.mpr hexp), hexp]
      by_cases hzero : x.fraction = 0
      · rw [if_pos hzero, hzero]
        exact ⟨_, _, rfl, .zero⟩
      · rw [if_neg hzero]
        have hlead : x.fraction.log2 < 23 := (Nat.log2_lt hzero).mpr hf
        exact ⟨_, _, rfl, .subnormal (Nat.log2_self_le hzero) Nat.lt_log2_self hlead⟩
    · rw [if_pos hexp]
      exact ⟨_, _, rfl, .normal hexp (by omega) hf⟩

theorem sign_widen (x : Binary32) : x.widen.sign = x.sign := by
  obtain ⟨e, f, hx, h⟩ := x.widen_eq_ofParts
  rw [hx, Binary64.sign_ofParts x.sign_lt h.exponent_lt h.fraction_lt]

/-- **Widening keeps what a pattern stands for.** -/
theorem datum_widen (x : Binary32) : x.widen.datum = x.datum := by
  obtain ⟨e, f, hx, h⟩ := x.widen_eq_ofParts
  rw [hx, Binary64.datum_ofParts x.sign_lt h.exponent_lt h.fraction_lt, h.datum_eq, datum]

theorem isNaN_widen (x : Binary32) : x.widen.isNaN = x.isNaN := by
  rw [Bool.eq_iff_iff, Binary64.isNaN_iff, isNaN_iff, datum_widen]

end Binary32

/-! ### Where it is done -/

open Decoder

/-- Wherever the pattern is read, the number that is handed out is the given one. -/
structure Binary32.ReadAs (x : Binary32) (y : Binary64) : Prop where
  /-- On its own. -/
  alone : ∀ (item : String) (c : Cursor) (t : List UInt8), c.rest = Encoder.f4 x ++ t →
    ∃ c', (ReadStep.f4 item).run c = .ok (.float y) c'
  /-- As a constant of a pool. -/
  entry : ∀ (index count : Nat) (c : Cursor) (t : List UInt8),
    c.rest = Encoder.u1 Tag.float.code ++ (Encoder.f4 x ++ t) →
    ∃ c', Entry.decode index count c = .ok (.float x) c' ∧
      Constant.number? (.float x : Entry) = some (.float y)
  /-- As the value of a number in a pool. -/
  literal : ∀ (pool : ConstantPool) (i : Int), pool.entry i = .ok (.float x) →
    ∃ v, pool.literal i = .ok v ∧ v.number? = some (.float y)
  /-- As the value of a constant field. -/
  field : ∀ (pool : ConstantPool) (f : Field) (a : Attribute UInt16),
    f.attributes.first? Payload.constantValue? = some a →
    pool.entry a.payload.toNat = .ok (.float x) →
    ∃ v, f.constantValue pool = .ok (some v) ∧ v.number? = some (.float y)
  /-- As an element of an annotation, at any depth. -/
  element : ∀ (pool : ConstantPool) (depth : Nat) (index : UInt16) (c : Cursor) (t : List UInt8),
    pool.entry index.toNat = .ok (.float x) →
    c.rest = Encoder.mark 'F' ++ (Encoder.u2 index ++ t) →
    ∃ v c', ElementValue.decodeWithin pool (depth + 1) c = .ok (.literal .float v) c' ∧
      v.number? = some (.float y)

namespace Binary32

theorem readAs_widen (x : Binary32) : x.ReadAs x.widen where
  alone := by
    intro item c t hrest
    obtain ⟨c', hread, -⟩ := (reads_f4 item).accepts ⟨x, trivial, rfl, rfl⟩ hrest
    exact ⟨c', bind_of_ok hread⟩
  entry := by
    intro index count c t hrest
    obtain ⟨c₁, hcode, hover⟩ := (reads_u1 "constant pool tag").accepts
      ⟨Tag.float.code, trivial, rfl, rfl⟩ hrest
    obtain ⟨c₂, hread, -⟩ := (reads_f4 "float").accepts ⟨x, trivial, rfl, rfl⟩
      (hover.rest_eq hrest)
    refine ⟨c₂, ?_, rfl⟩
    exact (bind_of_ok hcode).trans (bind_of_ok hread)
  literal := by
    intro pool i hentry
    refine ⟨.float x, ?_, rfl⟩
    rw [ConstantPool.literal, hentry]
    rfl
  field := by
    intro pool f a hfirst hentry
    refine ⟨.float x, ?_, rfl⟩
    rw [Field.constantValue, hfirst, Option.mapM_some, ConstantPool.literal, hentry]
    rfl
  element := by
    intro pool depth index c t hentry hrest
    obtain ⟨c₁, hmark, hover⟩ := (reads_u1 "element_value tag").accepts
      ⟨_, trivial, rfl, rfl⟩ hrest
    obtain ⟨c₂, hindex, -⟩ := (reads_u2 "const_value_index").accepts
      ⟨index, trivial, rfl, rfl⟩ (hover.rest_eq hrest)
    have hvalue : pool.primitive .float index.toNat = .ok (.float x) := by
      rw [ConstantPool.primitive, hentry]
      rfl
    have hfound : ofResult (pool.primitive .float index.toNat) c₂ = .ok (.float x) c₂ :=
      ofResult_ok.mpr ⟨hvalue, rfl⟩
    refine ⟨.float x, c₂, ?_, rfl⟩
    exact (bind_of_ok hmark).trans ((bind_of_ok hindex).trans (bind_of_ok hfound))

/--
**The numbers of the narrow format are read exactly.**  Wherever a pattern is read, its widened
pattern is handed out.  That one has the same sign and stands for the same thing: the same
rational number or the same zero, the same infinity, or no number.  Patterns that stand for a
number or an infinity are told apart by what their widened patterns stand for, and the order is
the same.
-/
theorem widen_exact :
    (∀ x : Binary32, x.ReadAs x.widen ∧ x.widen.sign = x.sign ∧ x.widen.datum = x.datum ∧
      x.widen.isNaN = x.isNaN) ∧
    (∀ x y : Binary32, x.isNaN = false → x.widen.datum = y.widen.datum → x = y) ∧
    ∀ x y : Binary32, x.widen.datum.Precedes y.widen.datum ↔ x.datum.Precedes y.datum := by
  refine ⟨fun x => ⟨x.readAs_widen, x.sign_widen, x.datum_widen, x.isNaN_widen⟩, ?_, ?_⟩
  · intro x y hx h
    rw [datum_widen, datum_widen] at h
    exact eq_of_datum hx h
  · intro x y
    rw [datum_widen, datum_widen]

/-- The smallest positive number, which is subnormal and becomes normal, and what is beside it. -/
theorem widen_exact_smallest :
    let x : Binary32 := ⟨1⟩
    (x.isNaN = false ∧ x.widen = ⟨0x36A0000000000000⟩ ∧
      x.widen.datum = .finite false (1 / 2 ^ 149)) ∧
    (∃ c', (ReadStep.f4 "float").run (.start [0, 0, 0, 1]) = .ok (.float x.widen) c') ∧
    (∀ y : Binary32, x.widen.datum = y.widen.datum → x = y) ∧
    (mk 0x80000000).widen.datum.Precedes x.widen.datum := by
  intro x
  obtain ⟨hexact, hinjective, horder⟩ := widen_exact
  obtain ⟨hread, -, hdatum, -⟩ := hexact x
  have hx : x.isNaN = false := by decide
  have hrest : [0, 0, 0, 1] = Encoder.f4 ⟨1⟩ ++ [] := by decide
  have hone : (mk 1).datum = .finite false (1 / 2 ^ 149) := by decide +kernel
  have hzero : (mk 0x80000000).datum = .finite true 0 := by decide +kernel
  have hlt : (-0 : ℚ) < 1 / 2 ^ 149 := by decide +kernel
  refine ⟨⟨hx, by decide, hdatum.trans hone⟩, hread.alone "float" _ [] hrest,
    fun y => hinjective x y hx, ?_⟩
  rw [horder, hzero, hone]
  exact ⟨_, rfl, _, rfl, WithBot.coe_lt_coe.mpr (WithTop.coe_lt_coe.mpr hlt)⟩

end Binary32

end ClassFormat
