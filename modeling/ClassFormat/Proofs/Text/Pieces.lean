/-
Which bytes are read as modified UTF-8.

The accepted strings are those that fall into pieces, one for each code point: `Piece` lists the
pieces by the ranges of their bytes.  Apart from the two bytes for NUL, the pieces are the forms
of the code points.

Two things might go wrong and do not.  The two bytes for NUL are replaced wherever they are
found, without regard to where pieces begin.  But a byte `C0` is in no form, so no form is split
by it; and the zero byte that comes in their place is a piece by itself, so nothing that is
refused for these bytes is accepted without them.  And bytes that are standard UTF-8 are not read
in the lenient way at all.  They would give the same text: there is no `C0` in them to be
replaced, and no surrogate in their text to be joined with another.
-/
import ClassFormat.Proofs.Text.ModifiedUtf8
import ClassFormat.Proofs.Text.RoundTrip

namespace ClassFormat.ModifiedUtf8

open Utf8

/-! ### Pieces -/

/-- A byte after the first one of a piece. -/
def IsContinuation (b : UInt8) : Prop :=
  0x80 ≤ b ∧ b ≤ 0xBF

/--
The bytes of one code point: a single byte, the two bytes that stand for NUL, or the shortest
form of a code point in two, three or four bytes.  Surrogates have a form of three bytes.
-/
inductive Piece : List UInt8 → Prop where
  | oneByte {a : UInt8} (ha : a ≤ 0x7F) : Piece [a]
  | nul : Piece [0xC0, 0x80]
  | twoBytes {a b : UInt8} (ha : 0xC2 ≤ a ∧ a ≤ 0xDF) (hb : IsContinuation b) : Piece [a, b]
  | threeBytes {a b c : UInt8} (ha : 0xE0 ≤ a ∧ a ≤ 0xEF) (hb : IsContinuation b)
      (hc : IsContinuation c) (hshortest : a = 0xE0 → 0xA0 ≤ b) : Piece [a, b, c]
  | fourBytes {a b c d : UInt8} (ha : 0xF0 ≤ a ∧ a ≤ 0xF4) (hb : IsContinuation b)
      (hc : IsContinuation c) (hd : IsContinuation d) (hshortest : a = 0xF0 → 0x90 ≤ b)
      (hlast : a = 0xF4 → b ≤ 0x8F) : Piece [a, b, c, d]

theorem IsContinuation.bits {b : UInt8} (h : IsContinuation b) :
    b.toNat = 0x80 + (b.toNat - 0x80) ∧ b.toNat - 0x80 < 0x40 := by
  simp only [IsContinuation, UInt8.le_iff_toNat_le, UInt8.reduceToNat] at h
  omega

theorem Piece.exists_form {w : List UInt8} (h : Piece w) :
    w = [0xC0, 0x80] ∨ ∃ p : CodePoint, form p.toNat = w := by
  cases h with
  | nul => exact .inl rfl
  | @oneByte a ha =>
    simp only [UInt8.le_iff_toNat_le, UInt8.reduceToNat] at ha
    obtain ⟨p, hp⟩ := CodePoint.exists_toNat (show a.toNat < 0x110000 by omega)
    exact .inr ⟨p, hp ▸ form_oneByte (by omega)⟩
  | @twoBytes a b ha hb =>
    simp only [UInt8.le_iff_toNat_le, UInt8.reduceToNat] at ha
    obtain ⟨hb, hx⟩ := hb.bits
    obtain ⟨p, hp⟩ := CodePoint.exists_toNat
      (show (a.toNat - 0xC0) * 0x40 + (b.toNat - 0x80) < 0x110000 by omega)
    exact .inr ⟨p, form_twoBytes (by omega) hb hx hp (by omega)⟩
  | @threeBytes a b c ha hb hc hshortest =>
    simp only [UInt8.le_iff_toNat_le, UInt8.reduceToNat, ← UInt8.toNat_inj] at ha hshortest
    obtain ⟨hb, hx⟩ := hb.bits
    obtain ⟨hc, hy⟩ := hc.bits
    obtain ⟨p, hp⟩ := CodePoint.exists_toNat
      (show ((a.toNat - 0xE0) * 0x40 + (b.toNat - 0x80)) * 0x40 + (c.toNat - 0x80) < 0x110000 by
        omega)
    exact .inr ⟨p, form_threeBytes (by omega) hb hx hc hy hp (by omega)⟩
  | @fourBytes a b c d ha hb hc hd hshortest hlast =>
    simp only [UInt8.le_iff_toNat_le, UInt8.reduceToNat, ← UInt8.toNat_inj] at ha hshortest hlast
    obtain ⟨hb, hx⟩ := hb.bits
    obtain ⟨hc, hy⟩ := hc.bits
    obtain ⟨hd, hz⟩ := hd.bits
    obtain ⟨p, hp⟩ := CodePoint.exists_toNat
      (show (((a.toNat - 0xF0) * 0x40 + (b.toNat - 0x80)) * 0x40 + (c.toNat - 0x80)) * 0x40
        + (d.toNat - 0x80) < 0x110000 by omega)
    exact .inr ⟨p, form_fourBytes (by omega) hb hx hc hy hd hz hp (by omega)⟩

theorem le_ofNat {lo : UInt8} {k : Nat} (hk : k < 256) (h : lo.toNat ≤ k) : lo ≤ .ofNat k := by
  rwa [UInt8.le_iff_toNat_le, UInt8.toNat_ofNat_of_lt' hk]

theorem ofNat_le {hi : UInt8} {k : Nat} (h : k ≤ hi.toNat) : .ofNat k ≤ hi := by
  rwa [UInt8.le_iff_toNat_le, UInt8.toNat_ofNat_of_lt' (Nat.lt_of_le_of_lt h hi.toNat_lt)]

theorem ofNat_between {lo hi : UInt8} {k : Nat} (h : lo.toNat ≤ k ∧ k ≤ hi.toNat) :
    lo ≤ .ofNat k ∧ .ofNat k ≤ hi :=
  ⟨le_ofNat (Nat.lt_of_le_of_lt h.2 hi.toNat_lt) h.1, ofNat_le h.2⟩

theorem piece_form (p : CodePoint) : Piece (form p.toNat) := by
  have hp := p.toNat_lt
  generalize p.toNat = n at hp
  have hcontinuation {k : Nat} (hk : k < 0x40) : IsContinuation (.ofNat (0x80 + k)) :=
    ofNat_between (show 0x80 ≤ 0x80 + k ∧ 0x80 + k ≤ 0xBF by omega)
  -- The first byte has a say in the second where it is the least or the greatest of its kind.
  have hfirst {k : Nat} (hk : k < 256) {b : UInt8} : UInt8.ofNat k = b ↔ k = b.toNat := by
    rw [← UInt8.toNat_inj, UInt8.toNat_ofNat_of_lt' hk]
  unfold form
  by_cases h1 : n < 0x80
  · rw [if_pos h1]
    exact .oneByte (ofNat_le (show n ≤ 0x7F by omega))
  rw [if_neg h1]
  by_cases h2 : n < 0x800
  · rw [if_pos h2]
    refine .twoBytes (ofNat_between ?_) (hcontinuation (by omega))
    show 0xC2 ≤ 0xC0 + n / 0x40 ∧ 0xC0 + n / 0x40 ≤ 0xDF
    omega
  rw [if_neg h2]
  by_cases h3 : n < 0x10000
  · rw [if_pos h3]
    refine .threeBytes (ofNat_between ?_) (hcontinuation (by omega)) (hcontinuation (by omega))
      fun h => ?_
    · show 0xE0 ≤ 0xE0 + n / 0x1000 ∧ 0xE0 + n / 0x1000 ≤ 0xEF
      omega
    · have hleast : 0xE0 + n / 0x1000 = 0xE0 := (hfirst (by omega)).mp h
      exact le_ofNat (by omega) (show 0xA0 ≤ 0x80 + n / 0x40 % 0x40 by omega)
  · rw [if_neg h3]
    refine .fourBytes (ofNat_between ?_) (hcontinuation (by omega)) (hcontinuation (by omega))
      (hcontinuation (by omega)) (fun h => ?_) fun h => ?_
    · show 0xF0 ≤ 0xF0 + n / 0x40000 ∧ 0xF0 + n / 0x40000 ≤ 0xF4
      omega
    · have hleast : 0xF0 + n / 0x40000 = 0xF0 := (hfirst (by omega)).mp h
      exact le_ofNat (by omega) (show 0x90 ≤ 0x80 + n / 0x1000 % 0x40 by omega)
    · have hgreatest : 0xF0 + n / 0x40000 = 0xF4 := (hfirst (by omega)).mp h
      exact ofNat_le (show 0x80 + n / 0x1000 % 0x40 ≤ 0x8F by omega)

/-! ### What the replacement of NUL leaves -/

theorem expandNul_eq_nil {bytes : List UInt8} (h : expandNul bytes = []) : bytes = [] := by
  unfold expandNul at h
  split at h
  · rfl
  · cases h
  · split at h <;> cases h

theorem expandNul_eq_cons {bytes out : List UInt8} {b : UInt8} (h : expandNul bytes = b :: out) :
    ∃ rest, expandNul rest = out ∧ (bytes = b :: rest ∨ b = 0 ∧ bytes = 0xC0 :: 0x80 :: rest) := by
  unfold expandNul at h
  split at h
  · cases h
  · cases h
    exact ⟨[], rfl, .inl rfl⟩
  · rename_i byte next rest
    split at h
    · rename_i hnul
      obtain ⟨rfl, rfl⟩ : byte = 0xC0 ∧ next = 0x80 := by simpa using hnul
      cases h
      exact ⟨rest, rfl, .inr ⟨rfl, rfl⟩⟩
    · cases h
      exact ⟨next :: rest, rfl, .inl rfl⟩

theorem expandNul_eq_append {w bytes out : List UInt8} (hw : 0 ∉ w)
    (h : expandNul bytes = w ++ out) : ∃ rest, expandNul rest = out ∧ bytes = w ++ rest := by
  induction w generalizing bytes with
  | nil => exact ⟨bytes, h, rfl⟩
  | cons b w ih =>
    rw [List.mem_cons, not_or] at hw
    obtain ⟨rest, hrest, hbytes⟩ := expandNul_eq_cons h
    obtain ⟨rest', hrest', rfl⟩ := ih hw.2 hrest
    rcases hbytes with rfl | ⟨rfl, -⟩
    · exact ⟨rest', hrest', rfl⟩
    · exact absurd rfl hw.1

/-- Where a text is left, there were pieces: a zero byte alone may come from two bytes. -/
theorem exists_pieces {raw : List UInt8} {t : Text} (h : expandNul raw = Utf8.encode t) :
    ∃ pieces : List (List UInt8), (∀ w ∈ pieces, Piece w) ∧ pieces.flatten = raw := by
  induction t generalizing raw with
  | nil => exact ⟨[], List.forall_mem_nil _, (expandNul_eq_nil h).symm⟩
  | cons p t ih =>
      rw [encode_cons] at h
      have hp : p.toNat < 0x200000 := Nat.lt_trans p.toNat_lt (by decide)
      by_cases hnul : p.toNat = 0
      · rw [hnul] at h
        obtain ⟨rest, hrest, hraw⟩ := expandNul_eq_cons h
        obtain ⟨pieces, hall, rfl⟩ := ih hrest
        rcases hraw with rfl | ⟨-, rfl⟩
        · exact ⟨[0] :: pieces, List.forall_mem_cons.mpr ⟨.oneByte (by decide), hall⟩, rfl⟩
        · exact ⟨[0xC0, 0x80] :: pieces, List.forall_mem_cons.mpr ⟨.nul, hall⟩, rfl⟩
      · obtain ⟨rest, hrest, rfl⟩ := expandNul_eq_append (zero_not_mem_form hp hnul) h
        obtain ⟨pieces, hall, rfl⟩ := ih hrest
        exact ⟨form p.toNat :: pieces, List.forall_mem_cons.mpr ⟨piece_form p, hall⟩, rfl⟩

/-- No piece but that of NUL is changed, so a text is left of pieces. -/
theorem exists_encode_of_pieces {pieces : List (List UInt8)} (h : ∀ w ∈ pieces, Piece w) :
    ∃ t, expandNul pieces.flatten = Utf8.encode t := by
  induction pieces with
  | nil => exact ⟨[], rfl⟩
  | cons w pieces ih =>
      obtain ⟨hw, hall⟩ := List.forall_mem_cons.mp h
      obtain ⟨t, ht⟩ := ih hall
      rw [List.flatten_cons]
      rcases hw.exists_form with rfl | ⟨p, rfl⟩
      · refine ⟨.scalar '\x00' :: t, ?_⟩
        rw [encode_cons, ← ht]
        rfl
      · have hp : p.toNat < 0x200000 := Nat.lt_trans p.toNat_lt (by decide)
        exact ⟨p :: t, by rw [expandNul_append (not_mem_form hp), ht, encode_cons]⟩

/-! ### The lenient way and the strict one -/

theorem admits_allowed (p : CodePoint) : SurrogatePolicy.allowed.Admits p :=
  .inl rfl

theorem decodeExtended_eq_some_iff {raw : List UInt8} {u : Text} :
    decodeExtended raw = some u ↔
      ∃ t, expandNul raw = Utf8.encode t ∧ Text.ofUtf16 t.toUtf16 = u := by
  rw [decodeExtended, Option.map_eq_some_iff]
  refine exists_congr fun t => and_congr_left fun _ => decode_eq_some_iff.trans ?_
  rw [eq_comm]
  exact and_iff_right fun p _ => admits_allowed p

/-- Standard UTF-8 is read alike in the lenient way. -/
theorem decodeExtended_of_standard {raw : List UInt8} {t : Text}
    (h : Utf8.decode .refused raw = some t) : decodeExtended raw = some t := by
  obtain ⟨hadmits, rfl⟩ := decode_eq_some_iff.mp h
  have hscalar : ∀ p ∈ t, ∃ c, p = .scalar c := fun p hp =>
    (hadmits p hp).resolve_left (by decide)
  have hlead : 0xC0 ∉ Utf8.encode t := by
    intro hmem
    obtain ⟨p, -, hform⟩ := List.mem_flatMap.mp hmem
    exact not_mem_form (Nat.lt_trans p.toNat_lt (by decide)) hform
  have hsame := expandNul_append hlead []
  rw [List.append_nil, expandNul, List.append_nil] at hsame
  exact decodeExtended_eq_some_iff.mpr
    ⟨t, hsame, (Text.joins_toUtf16 hscalar).eq_ofUtf16.symm⟩

/-- The strict attempt makes no difference. -/
theorem decode_eq_decodeExtended (raw : List UInt8) : decode raw = decodeExtended raw := by
  unfold decode
  cases h : Utf8.decode .refused raw with
  | none => rfl
  | some t => exact (decodeExtended_of_standard h).symm

/--
**What is read as modified UTF-8, and how.**  A string is read exactly if it falls into pieces.
If it is standard UTF-8, the lenient way gives the same text.  And no text that is read has the
two halves of a surrogate pair side by side.
-/
theorem decode_exact (raw : List UInt8) :
    ((∃ t, decode raw = some t) ↔
      ∃ pieces : List (List UInt8), (∀ w ∈ pieces, Piece w) ∧ pieces.flatten = raw) ∧
    (∀ t, Utf8.decode .refused raw = some t → decodeExtended raw = some t) ∧
    ∀ t, decode raw = some t →
      ∀ p q : CodePoint, p.IsHigh → q.IsLow → ¬ [p, q] <:+: t := by
  rw [decode_eq_decodeExtended]
  simp only [decodeExtended_eq_some_iff]
  refine ⟨⟨?_, ?_⟩, ?_, ?_⟩
  · rintro ⟨-, t, ht, -⟩
    exact exists_pieces ht
  · rintro ⟨pieces, hall, rfl⟩
    obtain ⟨t, ht⟩ := exists_encode_of_pieces hall
    exact ⟨_, t, ht, rfl⟩
  · intro t ht
    exact decodeExtended_eq_some_iff.mp (decodeExtended_of_standard ht)
  · rintro _ ⟨t, -, rfl⟩ p q hp hq
    exact Text.ofUtf16_unpaired _ hp hq

/-- Four halves of pairs, of which those in the middle are joined, and a pair in one piece. -/
theorem decode_exact_halves :
    let raw : List UInt8 := [0xED, 0xB8, 0x80, 0xED, 0xA0, 0xBD, 0xED, 0xB8, 0x80, 0xED, 0xA0, 0xBD,
      0xC0, 0x80, 0xF0, 0x9F, 0x98, 0x80]
    let t : Text := [.surrogate 0x600, .scalar '😀', .surrogate 0x3D, .scalar '\x00', .scalar '😀']
    decode raw = some t ∧
      (∃ pieces : List (List UInt8), (∀ w ∈ pieces, Piece w) ∧ pieces.flatten = raw) ∧
      (CodePoint.surrogate 0x3D).IsHigh ∧ (CodePoint.surrogate 0x600).IsLow ∧
      ¬ [.surrogate 0x3D, .surrogate 0x600] <:+: t ∧
      Utf8.decode .refused [0x41, 0xF0, 0x9F, 0x98, 0x80, 0] =
        some [.scalar 'A', .scalar '😀', .scalar '\x00'] ∧
      decodeExtended [0x41, 0xF0, 0x9F, 0x98, 0x80, 0] =
        some [.scalar 'A', .scalar '😀', .scalar '\x00'] := by
  intro raw t
  have hread : decode raw = some t := by decide +kernel
  have hhigh : (CodePoint.surrogate 0x3D).IsHigh := by unfold CodePoint.IsHigh; decide
  have hlow : (CodePoint.surrogate 0x600).IsLow := by unfold CodePoint.IsLow; decide
  have hstandard : Utf8.decode .refused [0x41, 0xF0, 0x9F, 0x98, 0x80, 0] =
      some [.scalar 'A', .scalar '😀', .scalar '\x00'] := by decide +kernel
  obtain ⟨hpieces, -, hunpaired⟩ := decode_exact raw
  exact ⟨hread, hpieces.mp ⟨t, hread⟩, hhigh, hlow, hunpaired t hread _ _ hhigh hlow, hstandard,
    (decode_exact _).2.1 _ hstandard⟩

end ClassFormat.ModifiedUtf8
