/-
Modified UTF-8, written and read.

Apart from NUL, a unit is written in the form that standard UTF-8 has for its number, be it a
surrogate or not.  What is written may therefore be standard UTF-8 by chance.  Then it is read
as such: there was no NUL and no surrogate in it, so there is no pair to be joined either.
Otherwise the two bytes of a NUL, which nothing else is written with, become its standard form,
the units are read one by one, and the pairs among them are joined.
-/
import ClassFormat.Proofs.Text.Utf16
import ClassFormat.Proofs.Text.Utf8
import ClassFormat.Text.ModifiedUtf8

namespace ClassFormat

/-! ### Units in standard forms -/

theorem CodePoint.ofNat?_toNat_unit (unit : UInt16) :
    ofNat? unit.toNat = some (ofUnit unit) := by
  rw [← toNat_ofUnit, ofNat?_toNat]

namespace Utf8

theorem codePoint?_allowed_unit (unit : UInt16) :
    codePoint? .allowed 0 unit.toNat = some (.ofUnit unit) := by
  rw [codePoint?, if_neg (Nat.not_lt_zero _), CodePoint.ofNat?_toNat_unit]
  cases CodePoint.ofUnit unit <;> rfl

/-- A unit that standard UTF-8 has a form for is no surrogate. -/
theorem codePoint?_refused_unit {unit : UInt16} {p : CodePoint}
    (h : codePoint? .refused 0 unit.toNat = some p) :
    isHighSurrogate unit = false ∧ p = .ofUnit unit := by
  rw [codePoint?, if_neg (Nat.not_lt_zero _), CodePoint.ofNat?_toNat_unit] at h
  by_cases hhigh : isHighSurrogate unit = true
  · rw [isHighSurrogate_iff] at hhigh
    have hsurrogate : 0xD800 ≤ unit.toNat ∧ unit.toNat < 0xE000 := by omega
    simp [CodePoint.ofUnit, hsurrogate] at h
  · refine ⟨by simpa using hhigh, ?_⟩
    cases hunit : CodePoint.ofUnit unit with
    | scalar c => simpa [hunit] using h.symm
    | surrogate i => simp [hunit] at h

theorem unit_lt (unit : UInt16) : unit.toNat < 0x200000 :=
  Nat.lt_trans unit.toNat_lt (by decide)

theorem decode_form_unit (policy : SurrogatePolicy) (unit : UInt16) (rest : List UInt8) :
    decode policy (form unit.toNat ++ rest) = do
      return (← codePoint? policy 0 unit.toNat) :: (← decode policy rest) :=
  decode_form policy (unit_lt unit) rest

/-- If surrogates are allowed, units in their standard forms are read one by one. -/
theorem decode_allowed_forms (units : List UInt16) :
    decode .allowed (units.flatMap fun unit => form unit.toNat) = some (units.map .ofUnit) := by
  induction units with
  | nil => rfl
  | cons unit units ih =>
      rw [List.flatMap_cons, decode_form_unit, codePoint?_allowed_unit, ih]
      rfl

end Utf8

namespace ModifiedUtf8

open Utf8

/-- Apart from NUL, a unit is written in its standard form. -/
theorem encodeUnit_eq (unit : UInt16) :
    encodeUnit unit = if unit.toNat = 0 then [0xC0, 0x80] else form unit.toNat := by
  have hlt : unit.toNat < 0x10000 := unit.toNat_lt
  simp [encodeUnit, form, hlt]

/-! ### What is written may be standard UTF-8 -/

/-- Standard UTF-8 has no form of two bytes for NUL. -/
theorem decode_nul (policy : SurrogatePolicy) (rest : List UInt8) :
    Utf8.decode policy (0xC0 :: 0x80 :: rest) = none := by
  have hzero : continuation? 0x80 = some 0 := by decide
  rw [decode_twoBytes (by decide) (by decide), hzero]
  simp [codePoint?]

/-- If units as they are written are standard UTF-8, there is nothing to be joined. -/
theorem decode_refused_encode {units : List UInt16} {t : Text}
    (h : Utf8.decode .refused (encode units) = some t) : t = Text.ofUtf16 units := by
  induction units generalizing t with
  | nil => exact (Option.some.inj h).symm
  | cons unit units ih =>
      rw [encode, List.flatMap_cons, encodeUnit_eq] at h
      by_cases hnul : unit.toNat = 0
      · rw [if_pos hnul, List.cons_append, List.singleton_append, decode_nul] at h
        cases h
      · rw [if_neg hnul, decode_form_unit] at h
        simp only [Option.bind_eq_bind, Option.bind_eq_some_iff, Option.pure_def,
          Option.some.injEq] at h
        obtain ⟨p, hp, rest, hrest, rfl⟩ := h
        obtain ⟨hhigh, rfl⟩ := codePoint?_refused_unit hp
        have hsingle : ¬ Text.StartsWithPair (unit :: units) := by
          cases units <;> simp [Text.StartsWithPair, hhigh]
        rw [Text.ofUtf16_of_single hsingle, ih hrest]

/-! ### What is written is read anyway -/

theorem expandNul_cons_of_ne {byte : UInt8} (h : byte ≠ 0xC0) (rest : List UInt8) :
    expandNul (byte :: rest) = byte :: expandNul rest := by
  cases rest with
  | nil => rfl
  | cons next rest => simp [expandNul, h]

theorem expandNul_append {bytes : List UInt8} (h : 0xC0 ∉ bytes) (rest : List UInt8) :
    expandNul (bytes ++ rest) = bytes ++ expandNul rest := by
  induction bytes with
  | nil => rfl
  | cons byte bytes ih =>
      rw [List.mem_cons, not_or] at h
      rw [List.cons_append, expandNul_cons_of_ne (Ne.symm h.1), ih h.2, List.cons_append]

/-- The bytes of a NUL become one byte, and other forms are left as they are. -/
theorem expandNul_encode (units : List UInt16) :
    expandNul (encode units) = units.flatMap fun unit => form unit.toNat := by
  induction units with
  | nil => rfl
  | cons unit units ih =>
      rw [encode] at ih ⊢
      rw [List.flatMap_cons, List.flatMap_cons, encodeUnit_eq]
      by_cases hnul : unit.toNat = 0
      · rw [if_pos hnul, hnul, ← ih]
        rfl
      · rw [if_neg hnul, expandNul_append (not_mem_form (unit_lt unit)), ih]

theorem decodeExtended_encode (units : List UInt16) :
    decodeExtended (encode units) = some (Text.ofUtf16 units) := by
  rw [decodeExtended, expandNul_encode, decode_allowed_forms, Option.map_some,
    Text.toUtf16_map_ofUnit]

/--
**Every sequence of units is read back from its bytes.**  What is read is the one text
in which each high surrogate directly before a low one is joined with it, and every other unit is
kept as it is.
-/
theorem decode_encode_units (units : List UInt16) :
    decode (encode units) = some (Text.ofUtf16 units) ∧
      ∀ t, Text.Joins units t ↔ t = Text.ofUtf16 units := by
  refine ⟨?_, fun t => Text.joins_iff⟩
  cases hstandard : Utf8.decode .refused (encode units) with
  | none => rw [decode, hstandard, decodeExtended_encode]
  | some t => rw [decode, hstandard, decode_refused_encode hstandard]

/-- Of two high surrogates and two low ones in a row, those in the middle make a pair. -/
example : decode (encode [0xFEFF, 0xD83D, 0xD83D, 0xDE00, 0xDE00, 0]) =
    some [.scalar '\ufeff', .surrogate 0x3D, .scalar '😀', .surrogate 0x600, .scalar '\x00'] := by
  decide +kernel

end ModifiedUtf8

end ClassFormat
