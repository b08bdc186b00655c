/-
The shortest form of a code point in UTF-8.

The first byte of a form tells how long it is, and each byte after it carries six bits of the
number.  `decode_form` says how a form is read in front of other bytes, whatever its number is:
whether the number is a code point that the policy accepts is asked afterwards.
-/
import ClassFormat.Text.Utf8

namespace ClassFormat.Utf8

/-- The shortest form of a number of at most 21 bits. -/
def form (n : Nat) : List UInt8 :=
  if n < 0x80 then [.ofNat n]
  else if n < 0x800 then [.ofNat (0xC0 + n / 0x40), .ofNat (0x80 + n % 0x40)]
  else if n < 0x10000 then
    [.ofNat (0xE0 + n / 0x1000), .ofNat (0x80 + n / 0x40 % 0x40), .ofNat (0x80 + n % 0x40)]
  else
    [.ofNat (0xF0 + n / 0x40000), .ofNat (0x80 + n / 0x1000 % 0x40),
      .ofNat (0x80 + n / 0x40 % 0x40), .ofNat (0x80 + n % 0x40)]

/--
Only the form of a number below 80 has bytes below 80.  The byte `C0` could only begin a form
that is not the shortest.
-/
theorem of_mem_form {n : Nat} (hn : n < 0x200000) {b : UInt8} (h : b ∈ form n) :
    b.toNat < 0x80 ∧ b.toNat = n ∨ 0x80 ≤ b.toNat ∧ b.toNat ≠ 0xC0 := by
  have hbyte {k : Nat} (hk : k < 256) : (UInt8.ofNat k).toNat = k := UInt8.toNat_ofNat_of_lt' hk
  unfold form at h
  by_cases h1 : n < 0x80
  · rw [if_pos h1, List.mem_singleton] at h
    rw [h, hbyte (by omega)]
    omega
  rw [if_neg h1] at h
  refine .inr ?_
  by_cases h2 : n < 0x800
  · simp only [if_pos h2, List.mem_cons, List.not_mem_nil, or_false] at h
    rcases h with rfl | rfl <;> rw [hbyte (by omega)] <;> omega
  rw [if_neg h2] at h
  by_cases h3 : n < 0x10000
  · simp only [if_pos h3, List.mem_cons, List.not_mem_nil, or_false] at h
    rcases h with rfl | rfl | rfl <;> rw [hbyte (by omega)] <;> omega
  · simp only [if_neg h3, List.mem_cons, List.not_mem_nil, or_false] at h
    rcases h with rfl | rfl | rfl | rfl <;> rw [hbyte (by omega)] <;> omega

theorem not_mem_form {n : Nat} (hn : n < 0x200000) : 0xC0 ∉ form n := by
  intro h
  rcases of_mem_form hn h with ⟨hlt, -⟩ | ⟨-, hne⟩
  · exact absurd hlt (by decide)
  · exact hne rfl

theorem zero_not_mem_form {n : Nat} (hn : n < 0x200000) (h0 : n ≠ 0) : 0 ∉ form n := by
  intro h
  rcases of_mem_form hn h with ⟨-, heq⟩ | ⟨hle, -⟩
  · exact h0 heq.symm
  · exact absurd hle (by decide)

/-- A continuation byte carries six bits. -/
theorem continuation?_ofNat {k : Nat} (h : k < 0x40) :
    continuation? (.ofNat (0x80 + k)) = some k := by
  have hbyte : (UInt8.ofNat (0x80 + k)).toNat = 0x80 + k :=
    UInt8.toNat_ofNat_of_lt' (show _ < 256 by omega)
  have hrange : (0x80 ≤ UInt8.ofNat (0x80 + k) && UInt8.ofNat (0x80 + k) < 0xC0) = true := by
    simp only [Bool.and_eq_true, decide_eq_true_eq, UInt8.le_iff_toNat_le,
      UInt8.lt_iff_toNat_lt, hbyte, UInt8.reduceToNat]
    omega
  rw [continuation?, if_pos hrange, hbyte, Nat.add_sub_cancel_left]

/-- The least number for a form makes no difference to a number that needs the form. -/
theorem codePoint?_of_le {policy : SurrogatePolicy} {least n : Nat} (h : least ≤ n) :
    codePoint? policy least n = codePoint? policy 0 n := by
  rw [codePoint?, codePoint?, if_neg (by omega), if_neg (by omega)]

/-! ### The first byte tells how long a form is -/

section Lead

variable {policy : SurrogatePolicy} {lead b c d : UInt8} {rest : List UInt8}

theorem decode_oneByte (h : lead.toNat < 0x80) :
    decode policy (lead :: rest) = do
      return (← codePoint? policy 0 lead.toNat) :: (← decode policy rest) := by
  rw [decode.eq_def]
  simp [UInt8.lt_iff_toNat_lt, h]

theorem decode_twoBytes (h : 0xC0 ≤ lead.toNat) (h' : lead.toNat < 0xE0) :
    decode policy (lead :: b :: rest) = do
      let n := (lead.toNat - 0xC0) * 0x40 + (← continuation? b)
      return (← codePoint? policy 0x80 n) :: (← decode policy rest) := by
  have hlong : ¬ lead.toNat < 0x80 ∧ ¬ lead.toNat < 0xC0 := by omega
  rw [decode.eq_def]
  simp [UInt8.lt_iff_toNat_lt, hlong, h']

theorem decode_threeBytes (h : 0xE0 ≤ lead.toNat) (h' : lead.toNat < 0xF0) :
    decode policy (lead :: b :: c :: rest) = do
      let n := ((lead.toNat - 0xE0) * 0x40 + (← continuation? b)) * 0x40 + (← continuation? c)
      return (← codePoint? policy 0x800 n) :: (← decode policy rest) := by
  have hlong : ¬ lead.toNat < 0x80 ∧ ¬ lead.toNat < 0xC0 ∧ ¬ lead.toNat < 0xE0 := by omega
  rw [decode.eq_def]
  simp [UInt8.lt_iff_toNat_lt, hlong, h']

theorem decode_fourBytes (h : 0xF0 ≤ lead.toNat) (h' : lead.toNat < 0xF8) :
    decode policy (lead :: b :: c :: d :: rest) = do
      let n := (((lead.toNat - 0xF0) * 0x40 + (← continuation? b)) * 0x40
        + (← continuation? c)) * 0x40 + (← continuation? d)
      return (← codePoint? policy 0x10000 n) :: (← decode policy rest) := by
  have hlong : ¬ lead.toNat < 0x80 ∧ ¬ lead.toNat < 0xC0 ∧ ¬ lead.toNat < 0xE0 ∧
      ¬ lead.toNat < 0xF0 := by omega
  rw [decode.eq_def]
  simp [UInt8.lt_iff_toNat_lt, hlong, h']

end Lead

/-- A form is read as the number that it was made from. -/
theorem decode_form (policy : SurrogatePolicy) {n : Nat} (hn : n < 0x200000)
    (rest : List UInt8) :
    decode policy (form n ++ rest) = do
      return (← codePoint? policy 0 n) :: (← decode policy rest) := by
  unfold form
  by_cases h1 : n < 0x80
  · have hlead : (UInt8.ofNat n).toNat = n :=
      UInt8.toNat_ofNat_of_lt' (show _ < 256 by omega)
    rw [if_pos h1, List.singleton_append, decode_oneByte (by omega), hlead]
  rw [if_neg h1]
  by_cases h2 : n < 0x800
  · have hlead : (UInt8.ofNat (0xC0 + n / 0x40)).toNat = 0xC0 + n / 0x40 :=
      UInt8.toNat_ofNat_of_lt' (show _ < 256 by omega)
    have hbits : n / 0x40 * 0x40 + n % 0x40 = n := by omega
    rw [if_pos h2, List.cons_append, List.singleton_append,
      decode_twoBytes (by omega) (by omega), continuation?_ofNat (by omega), hlead]
    simp only [Option.bind_eq_bind, Option.bind_some, Nat.add_sub_cancel_left, hbits]
    rw [codePoint?_of_le (by omega)]
  rw [if_neg h2]
  by_cases h3 : n < 0x10000
  · have hlead : (UInt8.ofNat (0xE0 + n / 0x1000)).toNat = 0xE0 + n / 0x1000 :=
      UInt8.toNat_ofNat_of_lt' (show _ < 256 by omega)
    have hbits : (n / 0x1000 * 0x40 + n / 0x40 % 0x40) * 0x40 + n % 0x40 = n := by omega
    rw [if_pos h3, List.cons_append, List.cons_append, List.singleton_append,
      decode_threeBytes (by omega) (by omega), continuation?_ofNat (by omega),
      continuation?_ofNat (by omega), hlead]
    simp only [Option.bind_eq_bind, Option.bind_some, Nat.add_sub_cancel_left, hbits]
    rw [codePoint?_of_le (by omega)]
  · have hlead : (UInt8.ofNat (0xF0 + n / 0x40000)).toNat = 0xF0 + n / 0x40000 :=
      UInt8.toNat_ofNat_of_lt' (show _ < 256 by omega)
    have hbits : ((n / 0x40000 * 0x40 + n / 0x1000 % 0x40) * 0x40 + n / 0x40 % 0x40) * 0x40
        + n % 0x40 = n := by omega
    rw [if_neg h3, List.cons_append, List.cons_append, List.cons_append, List.singleton_append,
      decode_fourBytes (by omega) (by omega), continuation?_ofNat (by omega),
      continuation?_ofNat (by omega), continuation?_ofNat (by omega), hlead]
    simp only [Option.bind_eq_bind, Option.bind_some, Nat.add_sub_cancel_left, hbits]
    rw [codePoint?_of_le (by omega)]

/-! ### Forms from their bytes -/

section Forms

variable {lead b c d : UInt8} {x y z : Nat}

theorem form_oneByte (h : lead.toNat < 0x80) : form lead.toNat = [lead] := by
  rw [form, if_pos h, UInt8.ofNat_toNat]

theorem form_twoBytes {n : Nat} (hlead : 0xC0 ≤ lead.toNat ∧ lead.toNat < 0xE0)
    (hb : b.toNat = 0x80 + x) (hx : x < 0x40) (hn : n = (lead.toNat - 0xC0) * 0x40 + x)
    (hleast : 0x80 ≤ n) : form n = [lead, b] := by
  have hlow : ¬ n < 0x80 ∧ n < 0x800 := by omega
  have hlead' : 0xC0 + n / 0x40 = lead.toNat := by omega
  have hb' : 0x80 + n % 0x40 = b.toNat := by omega
  rw [form, if_neg hlow.1, if_pos hlow.2, hlead', hb', UInt8.ofNat_toNat, UInt8.ofNat_toNat]

theorem form_threeBytes {n : Nat} (hlead : 0xE0 ≤ lead.toNat ∧ lead.toNat < 0xF0)
    (hb : b.toNat = 0x80 + x) (hx : x < 0x40) (hc : c.toNat = 0x80 + y) (hy : y < 0x40)
    (hn : n = ((lead.toNat - 0xE0) * 0x40 + x) * 0x40 + y) (hleast : 0x800 ≤ n) :
    form n = [lead, b, c] := by
  have hlow : ¬ n < 0x80 ∧ ¬ n < 0x800 ∧ n < 0x10000 := by omega
  have hlead' : 0xE0 + n / 0x1000 = lead.toNat := by omega
  have hb' : 0x80 + n / 0x40 % 0x40 = b.toNat := by omega
  have hc' : 0x80 + n % 0x40 = c.toNat := by omega
  rw [form, if_neg hlow.1, if_neg hlow.2.1, if_pos hlow.2.2, hlead', hb', hc',
    UInt8.ofNat_toNat, UInt8.ofNat_toNat, UInt8.ofNat_toNat]

theorem form_fourBytes {n : Nat} (hlead : 0xF0 ≤ lead.toNat ∧ lead.toNat < 0xF8)
    (hb : b.toNat = 0x80 + x) (hx : x < 0x40) (hc : c.toNat = 0x80 + y) (hy : y < 0x40)
    (hd : d.toNat = 0x80 + z) (hz : z < 0x40)
    (hn : n = (((lead.toNat - 0xF0) * 0x40 + x) * 0x40 + y) * 0x40 + z) (hleast : 0x10000 ≤ n) :
    form n = [lead, b, c, d] := by
  have hlow : ¬ n < 0x80 ∧ ¬ n < 0x800 ∧ ¬ n < 0x10000 := by omega
  have hlead' : 0xF0 + n / 0x40000 = lead.toNat := by omega
  have hb' : 0x80 + n / 0x1000 % 0x40 = b.toNat := by omega
  have hc' : 0x80 + n / 0x40 % 0x40 = c.toNat := by omega
  have hd' : 0x80 + n % 0x40 = d.toNat := by omega
  rw [form, if_neg hlow.1, if_neg hlow.2.1, if_neg hlow.2.2, hlead', hb', hc', hd',
    UInt8.ofNat_toNat, UInt8.ofNat_toNat, UInt8.ofNat_toNat, UInt8.ofNat_toNat]

end Forms

end ClassFormat.Utf8
