/-
Faults that account for the bytes of an input.

Some faults count: how many bytes were needed and how many are left, how many an attribute
declares and how many its payload took.  Such a fault is `Truthful` if its offset lies in the
input and its counts are those that one gets by counting from there.

What makes a fault truthful is that a cursor never loses track: its offset and the bytes that
are left make up the size of the input, at the start and after every read.  A decoder
`Accounts` for an input if it keeps that up and moves forwards, and if the faults that it stops
with are truthful.  The condition comes with a bound on where the decoder starts, because
counting down a bound on the depth of nested values is only right as long as the bytes that
are left are counted down with it.
-/
import ClassFormat.Proofs.Bytes.Format

namespace ClassFormat

/-! ### Faults -/

/-- Causes that come with numbers of bytes that can be checked against the input. -/
def Cause.Counts : Cause → Prop
  | .endOfInput .. | .attributeTruncated .. | .attributeLength .. | .trailingBytes _ => True
  | _ => False

theorem Cause.counts_of_kind {cause : Cause} {k : FaultKind} (h : cause.kind = k)
    (hk : k ∈ [.endOfInput, .truncatedAttribute, .trailingData]) : cause.Counts := by
  subst h
  cases cause with
  | endOfInput | attributeTruncated | attributeLength | trailingBytes => trivial
  | _ => simp [kind] at hk

theorem Cause.markerNotEmpty_of_kind {cause : Cause} (h : cause.kind = .attributeLength)
    (hcounts : ¬ cause.Counts) : ∃ declared, cause = .markerNotEmpty declared := by
  cases cause with
  | markerNotEmpty declared => exact ⟨declared, rfl⟩
  | attributeLength => exact absurd trivial hcounts
  | _ => cases h

/-- What a fault says about an input of the given size is true. -/
inductive Fault.Truthful (size : Nat) : Fault → Prop where
  | unplaced {cause : Cause} (h : ¬ cause.Counts) : Truthful size (.unplaced cause)
  | located {cause : Cause} {o : Nat} (h : ¬ cause.Counts) (hle : o ≤ size) :
      Truthful size (.located cause o)
  | endOfInput {needed left o : Nat} (item : String) (hleft : o + left = size)
      (hlt : left < needed) : Truthful size (.located (.endOfInput needed item left) o)
  | attributeTruncated {declared left o : Nat} (name : Text) (hleft : o + left = size)
      (hlt : left < declared) :
      Truthful size (.located (.attributeTruncated name declared left) o)
  | attributeLength {declared consumed o : Nat} (name : Text) (hne : declared ≠ consumed)
      (hdeclared : o + declared ≤ size) (hconsumed : o + consumed ≤ size) :
      Truthful size (.located (.attributeLength name declared consumed) o)
  | trailingBytes {count o : Nat} (hcount : o + count = size) (hpos : 0 < count) :
      Truthful size (.located (.trailingBytes count) o)

namespace Fault.Truthful

variable {size : Nat} {e : Fault}

theorem offset_le (h : e.Truthful size) : ∀ o, e.offset = some o → o ≤ size := by
  intro o ho
  cases h with
  | unplaced => cases ho
  | located _ hle =>
      cases ho
      exact hle
  | endOfInput _ hleft | attributeTruncated _ hleft =>
      cases ho
      omega
  | attributeLength _ _ hdeclared =>
      cases ho
      omega
  | trailingBytes hcount =>
      cases ho
      omega

theorem of_endOfInput (h : e.Truthful size) (hkind : e.cause.kind = .endOfInput) :
    ∃ needed item left o, e = .located (.endOfInput needed item left) o ∧ o + left = size ∧
      left < needed := by
  cases h with
  | unplaced hcounts | located hcounts =>
      exact absurd (Cause.counts_of_kind hkind (by decide)) hcounts
  | endOfInput item hleft hlt => exact ⟨_, item, _, _, rfl, hleft, hlt⟩
  | _ => cases hkind

theorem of_truncatedAttribute (h : e.Truthful size)
    (hkind : e.cause.kind = .truncatedAttribute) :
    ∃ name declared left o, e = .located (.attributeTruncated name declared left) o ∧
      o + left = size ∧ left < declared := by
  cases h with
  | unplaced hcounts | located hcounts =>
      exact absurd (Cause.counts_of_kind hkind (by decide)) hcounts
  | attributeTruncated name hleft hlt => exact ⟨name, _, _, _, rfl, hleft, hlt⟩
  | _ => cases hkind

theorem of_trailingData (h : e.Truthful size) (hkind : e.cause.kind = .trailingData) :
    ∃ count o, e = .located (.trailingBytes count) o ∧ o + count = size ∧ 0 < count := by
  cases h with
  | unplaced hcounts | located hcounts =>
      exact absurd (Cause.counts_of_kind hkind (by decide)) hcounts
  | trailingBytes hcount hpos => exact ⟨_, _, rfl, hcount, hpos⟩
  | _ => cases hkind

/-- Besides decoded attributes, a mark of deprecation can have the wrong length. -/
theorem of_attributeLength (h : e.Truthful size) (hkind : e.cause.kind = .attributeLength) :
    (∃ declared, e.cause = .markerNotEmpty declared) ∨
      ∃ name declared consumed o, e = .located (.attributeLength name declared consumed) o ∧
        declared ≠ consumed ∧ o + declared ≤ size ∧ o + consumed ≤ size := by
  cases h with
  | unplaced hcounts | located hcounts =>
      exact .inl (Cause.markerNotEmpty_of_kind hkind hcounts)
  | attributeLength name hne hdeclared hconsumed =>
      exact .inr ⟨name, _, _, _, rfl, hne, hdeclared, hconsumed⟩
  | _ => cases hkind

end Fault.Truthful

/-! ### Queries -/

/-- A query that fails does so with a fault that has no place and counts nothing. -/
def Unplaced {α : Type} (r : Except Fault α) : Prop :=
  ∀ e, r = .error e → e.offset = none ∧ ¬ e.cause.Counts

namespace Unplaced

variable {α β : Type}

theorem pure (a : α) : Unplaced (Pure.pure a) := fun _ h => by cases h

theorem error {cause : Cause} (h : ¬ cause.Counts) :
    Unplaced (.error (.unplaced cause) : Except Fault α) := fun _ he => by
  cases he
  exact ⟨rfl, h⟩

theorem bind {r : Except Fault α} {f : α → Except Fault β} (hr : Unplaced r)
    (hf : ∀ a, Unplaced (f a)) : Unplaced (r >>= f) := by
  intro e h
  cases r with
  | ok a => exact hf a e h
  | error e' =>
      cases h
      exact hr _ rfl

theorem ite {P : Prop} [Decidable P] {r s : Except Fault α} (hr : Unplaced r)
    (hs : Unplaced s) : Unplaced (if P then r else s) := by
  by_cases h : P
  · rw [if_pos h]
    exact hr
  · rw [if_neg h]
    exact hs

theorem truthful {r : Except Fault α} {e : Fault} (hr : Unplaced r) (h : r = .error e)
    (size : Nat) : e.Truthful size := by
  obtain ⟨hplace, hcounts⟩ := hr e h
  obtain ⟨cause, place⟩ := e
  cases hplace
  exact .unplaced hcounts

end Unplaced

/-! ### Cursors and decoders -/

/-- The cursor stands in an input of the given size, at the given offset or behind it. -/
structure Cursor.Stands (size low : Nat) (c : Cursor) : Prop where
  behind : low ≤ c.offset
  measured : c.offset + c.remaining = size

theorem Cursor.stands_start (bytes : List UInt8) : (start bytes).Stands bytes.length 0 :=
  ⟨Nat.le_refl 0, Nat.zero_add _⟩

theorem Cursor.Stands.offset_le {size low : Nat} {c : Cursor} (h : c.Stands size low) :
    c.offset ≤ size :=
  h.measured ▸ Nat.le_add_right _ _

namespace Decoder

/-- What has come of a decoder that started in an input of the given size, not before `low`. -/
inductive Accounted {α : Type} (size low : Nat) : EStateM.Result Fault Cursor α → Prop where
  | ok (a : α) {c : Cursor} (h : c.Stands size low) : Accounted size low (.ok a c)
  | error {e : Fault} (h : e.Truthful size) (c : Cursor) : Accounted size low (.error e c)

namespace Accounted

variable {α β : Type} {size low low' : Nat}

theorem mono {r : EStateM.Result Fault Cursor α} (h : Accounted size low r) (hle : low' ≤ low) :
    Accounted size low' r := by
  cases h with
  | ok a hc => exact .ok a ⟨Nat.le_trans hle hc.behind, hc.measured⟩
  | error he c => exact .error he c

/-- The second decoder goes on where the first one has come to. -/
theorem bind {p : Decoder α} {f : α → Decoder β} {c : Cursor} (hp : Accounted size low (p c))
    (hf : ∀ a c', c'.Stands size low → Accounted size low' (f a c')) :
    Accounted size low' ((p >>= f) c) := by
  cases hpc : p c with
  | ok a c' =>
      rw [hpc] at hp
      rw [bind_of_ok hpc]
      cases hp with
      | ok _ hc' => exact hf a c' hc'
  | error e c' =>
      rw [hpc] at hp
      rw [bind_of_error hpc]
      cases hp with
      | error he => exact .error he c'

end Accounted

/--
Started in an input of the given size, not before `low`, the decoder moves forwards, and if it
stops with a fault then that is truthful.
-/
def Accounts {α : Type} (size low : Nat) (p : Decoder α) : Prop :=
  ∀ c : Cursor, c.Stands size low → Accounted size c.offset (p c)

namespace Accounts

variable {α β X : Type} {size low : Nat} {p : Decoder α}

/-! ### Putting decoders together -/

theorem pure (a : α) : Accounts size low (Pure.pure a) :=
  fun _ h => .ok a ⟨Nat.le_refl _, h.measured⟩

theorem bind {f : α → Decoder β} (hp : Accounts size low p)
    (hf : ∀ a, Accounts size low (f a)) : Accounts size low (p >>= f) := by
  intro c hc
  refine (hp c hc).bind fun a c' hc' => ?_
  exact (hf a c' ⟨Nat.le_trans hc.behind hc'.behind, hc'.measured⟩).mono hc'.behind

theorem map {g : α → β} (hp : Accounts size low p) : Accounts size low (g <$> p) := by
  rw [← bind_pure_comp]
  exact hp.bind fun a => pure (g a)

theorem ite {P : Prop} [Decidable P] {q : Decoder α} (hp : Accounts size low p)
    (hq : Accounts size low q) : Accounts size low (if P then p else q) := by
  by_cases h : P
  · rw [if_pos h]
    exact hp
  · rw [if_neg h]
    exact hq

theorem failAt {cause : Cause} {o : Nat} (hle : o ≤ size) (h : ¬ cause.Counts) :
    Accounts size low (Decoder.failAt o cause : Decoder α) :=
  fun c _ => .error (.located h hle) c

theorem failHere {cause : Cause} (h : ¬ cause.Counts) :
    Accounts size low (Decoder.failHere cause : Decoder α) :=
  fun c hc => .error (.located h hc.offset_le) c

theorem ofResult {r : Except Fault α} (h : Unplaced r) :
    Accounts size low (Decoder.ofResult r) := by
  intro c hc
  cases r with
  | ok a => exact .ok a ⟨Nat.le_refl _, hc.measured⟩
  | error e => exact .error (h.truthful rfl size) c

/-- An offset that is remembered for a later fault lies in the input. -/
theorem atOffset {f : Nat → Decoder β} (hf : ∀ o ≤ size, Accounts size low (f o)) :
    Accounts size low (Decoder.offset >>= f) :=
  fun c hc => hf c.offset hc.offset_le c hc

/-! ### Reads -/

/-- A read moves by what it takes, or counts what there is instead. -/
theorem take_cases (n : Nat) (item : String) {c : Cursor} (hc : c.Stands size low) :
    (∃ w c', Decoder.take n item c = .ok w c' ∧ c'.Stands size (c.offset + n)) ∨
    ∃ e, Decoder.take n item c = .error e c ∧ e.Truthful size := by
  have hmeasured : c.offset + c.rest.length = size := hc.measured
  simp only [Decoder.take]
  by_cases hlen : (c.rest.take n).length = n
  · have hle : n ≤ c.rest.length := by
      rw [List.length_take] at hlen
      omega
    rw [if_pos hlen]
    refine .inl ⟨_, _, rfl, Nat.le_refl _, ?_⟩
    show c.offset + n + (c.rest.drop n).length = size
    rw [List.length_drop]
    omega
  · have hlt : c.rest.length < n := by
      rw [List.length_take] at hlen
      omega
    rw [if_neg hlen, List.take_of_length_le (Nat.le_of_lt hlt)]
    exact .inr ⟨_, rfl, .endOfInput item hmeasured hlt⟩

/-- Behind bytes that were read, less is left of the input than there was. -/
theorem afterTake {n : Nat} {item : String} {f : List UInt8 → Decoder β}
    (hf : ∀ w, Accounts size (low + n) (f w)) :
    Accounts size low (Decoder.take n item >>= f) := by
  intro c hc
  rcases take_cases n item hc with ⟨w, c', hres, hc'⟩ | ⟨e, hres, he⟩
  · rw [bind_of_ok hres]
    have hmoved : c'.Stands size (low + n) :=
      ⟨Nat.le_trans (Nat.add_le_add_right hc.behind n) hc'.behind, hc'.measured⟩
    exact (hf w c' hmoved).mono (Nat.le_trans (Nat.le_add_right _ _) hc'.behind)
  · rw [bind_of_error hres]
    exact .error he c

theorem take (n : Nat) (item : String) : Accounts size low (Decoder.take n item) := by
  rw [← bind_pure (Decoder.take n item)]
  exact afterTake fun w => pure w

theorem pass (n : Nat) (item : String) : Accounts size low (Decoder.pass n item) := by
  refine atOffset fun start _ => (take n item).bind fun bytes => ?_
  exact fun c hc => .ok bytes ⟨Nat.le_refl _, hc.measured⟩

theorem skip (n : Nat) (item : String) : Accounts size low (Decoder.skip n item) :=
  (pass n item).bind fun _ => pure ()

theorem number (n : Nat) (item : String) (make : List UInt8 → α) :
    Accounts size low (Decoder.take n item >>= fun bytes => Pure.pure (make bytes)) :=
  (take n item).bind fun bytes => pure (make bytes)

theorem u1 (item : String) : Accounts size low (Decoder.u1 item) := number 1 item _

theorem u2 (item : String) : Accounts size low (Decoder.u2 item) := number 2 item _

theorem u4 (item : String) : Accounts size low (Decoder.u4 item) := number 4 item _

theorem i4 (item : String) : Accounts size low (Decoder.i4 item) := number 4 item _

theorem i8 (item : String) : Accounts size low (Decoder.i8 item) := number 8 item _

theorem f4 (item : String) : Accounts size low (Decoder.f4 item) := number 4 item _

theorem f8 (item : String) : Accounts size low (Decoder.f8 item) := number 8 item _

theorem afterByte {item : String} {f : UInt8 → Decoder β}
    (hf : ∀ b, Accounts size (low + 1) (f b)) : Accounts size low (Decoder.u1 item >>= f) := by
  rw [Decoder.u1, bind_assoc]
  exact afterTake fun w => (hf _)

/-! ### Lists -/

theorem times (hp : Accounts size low p) (n : Nat) : Accounts size low (Decoder.times n p) := by
  induction n with
  | zero => exact pure []
  | succ n ih => exact hp.bind fun a => ih.bind fun rest => pure (a :: rest)

theorem forM {f : X → Decoder PUnit} (h : ∀ x, Accounts size low (f x)) (xs : List X) :
    Accounts size low (xs.forM f) := by
  induction xs with
  | nil => exact pure PUnit.unit
  | cons x xs ih => exact (h x).bind fun _ => ih

end Accounts

end Decoder

end ClassFormat
