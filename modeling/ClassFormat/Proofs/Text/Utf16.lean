/-
Surrogate pairs, joined.

`Text.Joins` says which text a sequence of UTF-16 units stands for, one unit or pair at a time
and by the numbers of the code points alone.  It leaves no choice: every sequence stands for one
text, and that is the one `Text.ofUtf16` reads.  No two halves of a pair stand side by side in
it, and a text without surrogates is read back from its own units.

A unit that is read as a code point of its own is written as that unit again, surrogates
included.  Pairs that were not joined when the units were read one by one are therefore joined
when they are written and read once more.
-/
import ClassFormat.Text.Utf16

namespace ClassFormat

namespace CodePoint

theorem toNat_injective {p q : CodePoint} (h : p.toNat = q.toNat) : p = q := by
  have hp := ofNat?_toNat p
  rw [h, ofNat?_toNat q] at hp
  exact (Option.some.inj hp).symm

theorem toNat_scalar_ofNat {n : Nat} (h : n.isValidChar) : (scalar (Char.ofNat n)).toNat = n := by
  rw [toNat, Char.ofNat, dif_pos h]
  rfl

theorem toNat_lt (p : CodePoint) : p.toNat < 0x110000 := by
  cases p with
  | scalar c =>
    have hvalid : c.toNat.isValidChar := c.valid
    show c.toNat < 0x110000
    unfold Nat.isValidChar at hvalid
    omega
  | surrogate i =>
    have hi := i.isLt
    show 0xD800 + i.val < 0x110000
    omega

/-- Every number in the range is the number of a code point. -/
theorem exists_toNat {n : Nat} (h : n < 0x110000) : ∃ p : CodePoint, p.toNat = n := by
  by_cases hvalid : n.isValidChar
  · exact ⟨.scalar (Char.ofNat n), toNat_scalar_ofNat hvalid⟩
  · unfold Nat.isValidChar at hvalid
    refine ⟨.surrogate ⟨n - 0xD800, by omega⟩, ?_⟩
    show 0xD800 + (n - 0xD800) = n
    omega

theorem ofNat?_eq_some_iff {n : Nat} {p : CodePoint} : ofNat? n = some p ↔ p.toNat = n := by
  constructor
  · intro h
    unfold ofNat? at h
    by_cases hvalid : n.isValidChar
    · rw [if_pos hvalid] at h
      cases h
      exact toNat_scalar_ofNat hvalid
    · rw [if_neg hvalid] at h
      by_cases hsurrogate : 0xD800 ≤ n ∧ n < 0xE000
      · rw [dif_pos hsurrogate] at h
        cases h
        show 0xD800 + (n - 0xD800) = n
        omega
      · rw [dif_neg hsurrogate] at h
        cases h
  · rintro rfl
    exact ofNat?_toNat p

/-- A single unit is read as the code point of the same number. -/
theorem toNat_ofUnit (unit : UInt16) : (ofUnit unit).toNat = unit.toNat := by
  have hlt := unit.toNat_lt
  unfold ofUnit
  by_cases h : 0xD800 ≤ unit.toNat ∧ unit.toNat < 0xE000
  · rw [dif_pos h]
    show 0xD800 + (unit.toNat - 0xD800) = unit.toNat
    omega
  · rw [dif_neg h]
    refine toNat_scalar_ofNat ?_
    unfold Nat.isValidChar
    omega

/-- A code point that was read from a single unit is written as that unit. -/
theorem toUtf16_ofUnit (unit : UInt16) : (ofUnit unit).toUtf16 = [unit] := by
  have hlt := unit.toNat_lt
  unfold toUtf16
  simp [toNat_ofUnit, hlt]

end CodePoint

/-! ### Halves of a pair -/

theorem isHighSurrogate_iff {unit : UInt16} :
    isHighSurrogate unit = true ↔ 0xD800 ≤ unit.toNat ∧ unit.toNat < 0xDC00 := by
  simp [isHighSurrogate, UInt16.le_iff_toNat_le, UInt16.lt_iff_toNat_lt]

theorem isLowSurrogate_iff {unit : UInt16} :
    isLowSurrogate unit = true ↔ 0xDC00 ≤ unit.toNat ∧ unit.toNat < 0xE000 := by
  simp [isLowSurrogate, UInt16.le_iff_toNat_le, UInt16.lt_iff_toNat_lt]

/-- A pair stands for the supplementary character whose number its halves make up. -/
theorem CodePoint.toNat_ofPair {high low : UInt16} (hhigh : isHighSurrogate high = true)
    (hlow : isLowSurrogate low = true) :
    (ofPair high low).toNat =
      0x10000 + (high.toNat - 0xD800) * 0x400 + (low.toNat - 0xDC00) := by
  rw [isHighSurrogate_iff] at hhigh
  rw [isLowSurrogate_iff] at hlow
  have hn : 0x10000 + (high.toNat % 0x400) * 0x400 + low.toNat % 0x400 =
      0x10000 + (high.toNat - 0xD800) * 0x400 + (low.toNat - 0xDC00) := by omega
  rw [ofPair, toNat_scalar_ofNat ?valid, hn]
  case valid =>
    unfold Nat.isValidChar
    omega

namespace CodePoint

/-- A first half of a surrogate pair that stands alone. -/
def IsHigh (p : CodePoint) : Prop :=
  0xD800 ≤ p.toNat ∧ p.toNat < 0xDC00

/-- A second half of a surrogate pair that stands alone. -/
def IsLow (p : CodePoint) : Prop :=
  0xDC00 ≤ p.toNat ∧ p.toNat < 0xE000

theorem isHigh_ofUnit {unit : UInt16} : (ofUnit unit).IsHigh ↔ isHighSurrogate unit = true := by
  rw [IsHigh, toNat_ofUnit, isHighSurrogate_iff]

theorem isLow_ofUnit {unit : UInt16} : (ofUnit unit).IsLow ↔ isLowSurrogate unit = true := by
  rw [IsLow, toNat_ofUnit, isLowSurrogate_iff]

end CodePoint

namespace Text

/-- The first of the units is one half of a pair, and the other half comes next. -/
def StartsWithPair : List UInt16 → Prop
  | high :: low :: _ => isHighSurrogate high = true ∧ isLowSurrogate low = true
  | _ => False

/--
The text joins the units: a high surrogate directly followed by a low one becomes one
supplementary character, and every other unit is kept.
-/
inductive Joins : List UInt16 → Text → Prop where
  | nil : Joins [] []
  | pair {high low : UInt16} {units : List UInt16} {p : CodePoint} {t : Text}
      (hpair : StartsWithPair (high :: low :: units))
      (hp : p.toNat = 0x10000 + (high.toNat - 0xD800) * 0x400 + (low.toNat - 0xDC00))
      (h : Joins units t) : Joins (high :: low :: units) (p :: t)
  | single {unit : UInt16} {units : List UInt16} {p : CodePoint} {t : Text}
      (hunit : ¬ StartsWithPair (unit :: units)) (hp : p.toNat = unit.toNat)
      (h : Joins units t) : Joins (unit :: units) (p :: t)

theorem ofUtf16_of_pair {high low : UInt16} {units : List UInt16}
    (h : StartsWithPair (high :: low :: units)) :
    ofUtf16 (high :: low :: units) = .ofPair high low :: ofUtf16 units := by
  have hpair : (isHighSurrogate high && isLowSurrogate low) = true := by simpa [StartsWithPair] using h
  rw [ofUtf16, if_pos hpair]

theorem ofUtf16_of_single {unit : UInt16} {units : List UInt16}
    (h : ¬ StartsWithPair (unit :: units)) :
    ofUtf16 (unit :: units) = .ofUnit unit :: ofUtf16 units := by
  cases units with
  | nil => rfl
  | cons next units =>
      have hpair : ¬ (isHighSurrogate unit && isLowSurrogate next) = true := by
        simpa [StartsWithPair] using h
      rw [ofUtf16, if_neg hpair]

theorem joins_ofUtf16 (units : List UInt16) : Joins units (ofUtf16 units) := by
  fun_induction ofUtf16 units with
  | case1 => exact .nil
  | case2 unit => exact .single id (CodePoint.toNat_ofUnit unit) .nil
  | case3 high low units hpair ih =>
      have hpair : isHighSurrogate high = true ∧ isLowSurrogate low = true := by simpa using hpair
      exact .pair hpair (CodePoint.toNat_ofPair hpair.1 hpair.2) ih
  | case4 unit next units hpair ih =>
      have hpair : ¬ StartsWithPair (unit :: next :: units) := by simpa [StartsWithPair] using hpair
      exact .single hpair (CodePoint.toNat_ofUnit unit) ih

/-- Only one text joins the units. -/
theorem Joins.eq_ofUtf16 {units : List UInt16} {t : Text} (h : Joins units t) :
    t = ofUtf16 units := by
  induction h with
  | nil => rfl
  | pair hpair hp _ ih =>
      rw [ofUtf16_of_pair hpair, ← ih]
      rw [← CodePoint.toNat_ofPair hpair.1 hpair.2] at hp
      rw [CodePoint.toNat_injective hp]
  | single hunit hp _ ih =>
      rw [ofUtf16_of_single hunit, ← ih]
      rw [← CodePoint.toNat_ofUnit] at hp
      rw [CodePoint.toNat_injective hp]

theorem joins_iff {units : List UInt16} {t : Text} : Joins units t ↔ t = ofUtf16 units :=
  ⟨Joins.eq_ofUtf16, fun h => h ▸ joins_ofUtf16 units⟩

/-! ### No pair is left unjoined -/

section Unpaired

variable {high low : UInt16} {units : List UInt16}

theorem le_toNat_ofPair (h : StartsWithPair (high :: low :: units)) :
    0x10000 ≤ (CodePoint.ofPair high low).toNat := by
  rw [CodePoint.toNat_ofPair h.1 h.2]
  omega

/-- A second half that is read first was the first unit. -/
theorem isLowSurrogate_of_ofUtf16 {q : CodePoint} {t : Text} (h : ofUtf16 (low :: units) = q :: t)
    (hq : q.IsLow) : isLowSurrogate low = true := by
  by_cases hpair : StartsWithPair (low :: units)
  · cases units with
    | nil => exact absurd hpair id
    | cons next units =>
      rw [ofUtf16_of_pair hpair] at h
      have hle := le_toNat_ofPair hpair
      rw [(List.cons.inj h).1] at hle
      unfold CodePoint.IsLow at hq
      omega
  · rw [ofUtf16_of_single hpair] at h
    rw [← (List.cons.inj h).1] at hq
    exact CodePoint.isLow_ofUnit.mp hq

/-- No two halves of a pair are left side by side. -/
theorem ofUtf16_unpaired (units : List UInt16) {p q : CodePoint} (hp : p.IsHigh) (hq : q.IsLow) :
    ¬ [p, q] <:+: ofUtf16 units := by
  fun_induction ofUtf16 units with
  | case1 => simp
  | case2 unit => simp [List.infix_cons_iff]
  | case3 high low units hpair ih =>
    have hpair : StartsWithPair (high :: low :: units) := by simpa [StartsWithPair] using hpair
    rw [List.infix_cons_iff, not_or]
    refine ⟨fun hprefix => ?_, ih⟩
    have hle := le_toNat_ofPair hpair
    rw [← (List.cons_prefix_cons.mp hprefix).1] at hle
    unfold CodePoint.IsHigh at hp
    omega
  | case4 unit next units hpair ih =>
    rw [List.infix_cons_iff, not_or]
    refine ⟨fun hprefix => hpair ?_, ih⟩
    obtain ⟨rfl, u, hu⟩ := List.cons_prefix_cons.mp hprefix
    rw [Bool.and_eq_true]
    exact ⟨CodePoint.isHigh_ofUnit.mp hp, isLowSurrogate_of_ofUtf16 hu.symm hq⟩

end Unpaired

/-! ### Texts written in units -/

theorem toUtf16_cons (p : CodePoint) (t : Text) : toUtf16 (p :: t) = p.toUtf16 ++ toUtf16 t :=
  List.flatMap_cons

theorem StartsWithPair.isHighSurrogate {unit : UInt16} {units : List UInt16}
    (h : StartsWithPair (unit :: units)) : isHighSurrogate unit = true := by
  cases units with
  | nil => exact absurd h id
  | cons next units => exact h.1

/-- A text without surrogates joins its units. -/
theorem joins_toUtf16 {t : Text} (h : ∀ p ∈ t, ∃ c, p = .scalar c) : Joins t.toUtf16 t := by
  induction t with
  | nil => exact .nil
  | cons p t ih =>
    obtain ⟨⟨c, rfl⟩, ht⟩ := List.forall_mem_cons.mp h
    have hvalid : c.toNat < 0xD800 ∨ 0xDFFF < c.toNat ∧ c.toNat < 0x110000 := c.valid
    have hc : (CodePoint.scalar c).toNat = c.toNat := rfl
    rw [toUtf16_cons, CodePoint.toUtf16, hc]
    by_cases hsmall : c.toNat < 0x10000
    · have hunit : (UInt16.ofNat c.toNat).toNat = c.toNat := UInt16.toNat_ofNat_of_lt' hsmall
      rw [if_pos hsmall]
      -- No character is a surrogate, so its unit is not the first half of a pair.
      refine .single (fun hpair => ?_) (hc.trans hunit.symm) (ih ht)
      have hhigh := isHighSurrogate_iff.mp hpair.isHighSurrogate
      omega
    · have hhigh : (UInt16.ofNat (0xD800 + (c.toNat - 0x10000) / 0x400)).toNat =
          0xD800 + (c.toNat - 0x10000) / 0x400 :=
        UInt16.toNat_ofNat_of_lt' (show _ < 65536 by omega)
      have hlow : (UInt16.ofNat (0xDC00 + (c.toNat - 0x10000) % 0x400)).toNat =
          0xDC00 + (c.toNat - 0x10000) % 0x400 :=
        UInt16.toNat_ofNat_of_lt' (show _ < 65536 by omega)
      rw [if_neg hsmall]
      refine .pair ⟨isHighSurrogate_iff.mpr ?_, isLowSurrogate_iff.mpr ?_⟩ ?_ (ih ht)
      · omega
      · omega
      · rw [hc, hhigh, hlow]
        omega

/-- Units that were read one by one are written as they were. -/
theorem toUtf16_map_ofUnit (units : List UInt16) : toUtf16 (units.map .ofUnit) = units := by
  induction units with
  | nil => rfl
  | cons unit units ih =>
      rw [toUtf16] at ih ⊢
      rw [List.map_cons, List.flatMap_cons, CodePoint.toUtf16_ofUnit, ih, List.singleton_append]

end Text

end ClassFormat
