/-
UTF-8, written and read.

Every code point has one form, the shortest.  Reading undoes writing and accepts nothing but what
is written: `Utf8.decode_eq_some_iff` says that a text is read from its own bytes and from no
others.  The policy decides only which code points may stand in the text.
-/
import ClassFormat.Proofs.Text.Utf16
import ClassFormat.Proofs.Text.Utf8

namespace ClassFormat.Utf8

/-- The policy lets the code point stand in a text. -/
def SurrogatePolicy.Admits (policy : SurrogatePolicy) (p : CodePoint) : Prop :=
  policy = .allowed ∨ ∃ c, p = .scalar c

theorem codePoint?_eq_some_iff {policy : SurrogatePolicy} {least n : Nat} {p : CodePoint} :
    codePoint? policy least n = some p ↔ least ≤ n ∧ p.toNat = n ∧ policy.Admits p := by
  unfold codePoint? SurrogatePolicy.Admits
  by_cases hleast : n < least
  · rw [if_pos hleast]
    simp [Nat.not_le.mpr hleast]
  rw [if_neg hleast, ← CodePoint.ofNat?_eq_some_iff]
  have hle : least ≤ n := Nat.le_of_not_lt hleast
  cases hn : CodePoint.ofNat? n with
  | none => simp
  | some q =>
    cases q with
    | scalar c =>
      simp only [Option.some.injEq, hle, true_and]
      constructor
      · rintro rfl
        exact ⟨rfl, .inr ⟨c, rfl⟩⟩
      · exact fun h => h.1
    | surrogate i =>
      cases policy with
      | allowed => simp [hle]
      | refused =>
        simp only [reduceCtorEq, if_false, false_iff, false_or]
        rintro ⟨-, h, c, rfl⟩
        cases h

theorem continuation?_eq_some {b : UInt8} {k : Nat} (h : continuation? b = some k) :
    b.toNat = 0x80 + k ∧ k < 0x40 := by
  unfold continuation? at h
  split at h
  · rename_i hrange
    simp only [Bool.and_eq_true, decide_eq_true_eq, UInt8.le_iff_toNat_le, UInt8.lt_iff_toNat_lt,
      UInt8.reduceToNat] at hrange
    simp only [Option.some.injEq] at h
    omega
  · cases h

/-- The bytes of a text. -/
def encode (t : Text) : List UInt8 :=
  t.flatMap fun p => form p.toNat

theorem encode_cons (p : CodePoint) (t : Text) : encode (p :: t) = form p.toNat ++ encode t :=
  List.flatMap_cons

theorem decode_encode_of {policy : SurrogatePolicy} {t : Text} (h : ∀ p ∈ t, policy.Admits p) :
    decode policy (encode t) = some t := by
  induction t with
  | nil => rfl
  | cons p t ih =>
    obtain ⟨hp, ht⟩ := List.forall_mem_cons.mp h
    have hlt := p.toNat_lt
    rw [encode_cons, decode_form policy (by omega),
      codePoint?_eq_some_iff.mpr ⟨Nat.zero_le _, rfl, hp⟩, ih ht]
    rfl

/-- A code point that is read in front of a text is written in front of its bytes. -/
theorem encode_of_read {policy : SurrogatePolicy} {least n : Nat} {w rest : List UInt8} {t : Text}
    (h : (do return (← codePoint? policy least n) :: (← decode policy rest)) = some t)
    (hform : least ≤ n → form n = w)
    (hrest : ∀ {u}, decode policy rest = some u → (∀ p ∈ u, policy.Admits p) ∧ encode u = rest) :
    (∀ p ∈ t, policy.Admits p) ∧ encode t = w ++ rest := by
  simp only [Option.bind_eq_bind, Option.bind_eq_some_iff, Option.pure_def,
    Option.some.injEq] at h
  obtain ⟨p, hp, u, hu, rfl⟩ := h
  obtain ⟨hleast, rfl, hadmits⟩ := codePoint?_eq_some_iff.mp hp
  obtain ⟨hall, hencode⟩ := hrest hu
  exact ⟨List.forall_mem_cons.mpr ⟨hadmits, hall⟩, by rw [encode_cons, hform hleast, hencode]⟩

theorem encode_of_decode {policy : SurrogatePolicy} {bytes : List UInt8} {t : Text}
    (h : decode policy bytes = some t) : (∀ p ∈ t, policy.Admits p) ∧ encode t = bytes := by
  fun_induction decode policy bytes generalizing t with
  | case1 =>
    cases h
    exact ⟨List.forall_mem_nil _, rfl⟩
  | case2 lead rest hlead ih =>
    rw [UInt8.lt_iff_toNat_lt] at hlead
    exact encode_of_read h (fun _ => form_oneByte hlead) ih
  | case4 lead _ hlow hlead b rest ih =>
    rw [UInt8.lt_iff_toNat_lt] at hlow hlead
    obtain ⟨x, hx, h⟩ := Option.bind_eq_some_iff.mp h
    obtain ⟨hb, hx⟩ := continuation?_eq_some hx
    exact encode_of_read h (form_twoBytes ⟨Nat.le_of_not_lt hlow, hlead⟩ hb hx rfl) ih
  | case6 lead _ _ hlow hlead b c rest ih =>
    rw [UInt8.lt_iff_toNat_lt] at hlow hlead
    obtain ⟨x, hx, h⟩ := Option.bind_eq_some_iff.mp h
    obtain ⟨y, hy, h⟩ := Option.bind_eq_some_iff.mp h
    obtain ⟨hb, hx⟩ := continuation?_eq_some hx
    obtain ⟨hc, hy⟩ := continuation?_eq_some hy
    exact encode_of_read h (form_threeBytes ⟨Nat.le_of_not_lt hlow, hlead⟩ hb hx hc hy rfl) ih
  | case8 lead _ _ _ hlow hlead b c d rest ih =>
    rw [UInt8.lt_iff_toNat_lt] at hlow hlead
    obtain ⟨x, hx, h⟩ := Option.bind_eq_some_iff.mp h
    obtain ⟨y, hy, h⟩ := Option.bind_eq_some_iff.mp h
    obtain ⟨z, hz, h⟩ := Option.bind_eq_some_iff.mp h
    obtain ⟨hb, hx⟩ := continuation?_eq_some hx
    obtain ⟨hc, hy⟩ := continuation?_eq_some hy
    obtain ⟨hd, hz⟩ := continuation?_eq_some hz
    exact encode_of_read h
      (form_fourBytes ⟨Nat.le_of_not_lt hlow, hlead⟩ hb hx hc hy hd hz rfl) ih
  | _ => cases h

/-- A text is read from its own bytes and from no others. -/
theorem decode_eq_some_iff {policy : SurrogatePolicy} {bytes : List UInt8} {t : Text} :
    decode policy bytes = some t ↔ (∀ p ∈ t, policy.Admits p) ∧ encode t = bytes := by
  constructor
  · exact encode_of_decode
  · rintro ⟨hall, rfl⟩
    exact decode_encode_of hall

end ClassFormat.Utf8
