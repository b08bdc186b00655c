/-
Relations that decoders respect.

Decoders are put together from few parts: values, faults, looks at the cursor, reads, and
one decoder after another.  A relation between decoders that holds of the parts, and that
putting them together keeps, holds of each decoder and itself.  `Congruence` lists what
has to be shown of such a relation, so that going through all the decoders of class files
is done once and not once for each relation.

The relations in mind compare the runs of a decoder on two inputs.  There are three places
where two such runs may part: the inputs may leave different numbers of bytes behind the
cursor, one of them may be cut where the other goes on, and the bytes that are passed over
may be different.  What becomes of them is left to the relation (`Left`, `cut`, `view`).
-/
import ClassFormat.Bytes.Decoder

namespace ClassFormat

/-- The input ends before the thing that was to be read. -/
def Fault.IsCut (e : Fault) : Prop :=
  e.cause.kind = .endOfInput ∨ e.cause.kind = .truncatedAttribute

namespace Decoder

/-- A relation between decoders that holds of their parts, and that putting them together keeps. -/
structure Congruence where
  /-- The decoders do alike, and the values that they give are in the given relation. -/
  Rel : {α : Type} → (α → α → Prop) → Decoder α → Decoder α → Prop
  /-- How many bytes are left for the first decoder, and how many for the second. -/
  Left : Nat → Nat → Prop
  /-- What is the same about bytes that both have passed over. -/
  view : List UInt8 → List UInt8
  pure : ∀ {α : Type} {R : α → α → Prop} {a b : α}, R a b → Rel R (Pure.pure a) (Pure.pure b)
  fail : ∀ {α : Type} {R : α → α → Prop} (e : Fault), Rel R (throw e) (throw e)
  bind : ∀ {α β : Type} {R : α → α → Prop} {S : β → β → Prop} {p q : Decoder α}
    {f g : α → Decoder β}, Rel R p q → (∀ a b, R a b → Rel S (f a) (g b)) →
      Rel S (p >>= f) (q >>= g)
  offset : Rel Eq Decoder.offset Decoder.offset
  remaining : Rel Left Decoder.remaining Decoder.remaining
  take : ∀ (size : Nat) (item : String), Rel Eq (Decoder.take size item) (Decoder.take size item)
  pass : ∀ (size : Nat) (item : String),
    Rel (fun x y => view x = view y) (Decoder.pass size item) (Decoder.pass size item)
  left_le : ∀ {n m : Nat}, Left n m → n ≤ m
  left_pred : ∀ {n m : Nat}, Left (n + 1) (m + 1) → Left n m
  /-- Where less is left for the first decoder, it may be cut, whatever the second does. -/
  cut : ∀ {α : Type} {R : α → α → Prop} {n m : Nat} {e : Fault} (q : Decoder α),
    Left n m → n ≠ m → e.IsCut → Rel R (throw e) q

namespace Congruence

variable (L : Congruence) {α β : Type} {R : α → α → Prop} {S : β → β → Prop}
  {p q p' q' : Decoder α}

/-- The decoder does alike, and gives the same values. -/
def Respects (p : Decoder α) : Prop :=
  L.Rel Eq p p

/-- The decoder does alike, and gives values that look the same. -/
def RespectsUpTo (g : α → β) (p : Decoder α) : Prop :=
  L.Rel (fun a b => g a = g b) p p

/-! ### Putting decoders together -/

theorem seq {f g : α → Decoder β} (hp : L.Rel Eq p q) (hf : ∀ a, L.Rel S (f a) (g a)) :
    L.Rel S (p >>= f) (q >>= g) := by
  refine L.bind hp fun a b hab => ?_
  subst hab
  exact hf a

theorem map {f g : α → β} (hp : L.Rel R p q) (h : ∀ a b, R a b → S (f a) (g b)) :
    L.Rel S (f <$> p) (g <$> q) := by
  rw [← bind_pure_comp, ← bind_pure_comp]
  exact L.bind hp fun a b hab => L.pure (h a b hab)

theorem mono {S : α → α → Prop} (hp : L.Rel R p q) (h : ∀ a b, R a b → S a b) :
    L.Rel S p q := by
  have hid : L.Rel S (id <$> p) (id <$> q) := L.map hp h
  rwa [id_map, id_map] at hid

theorem Respects.upTo {L : Congruence} (hp : L.Respects p) (g : α → β) : L.RespectsUpTo g p :=
  L.mono hp fun _ _ hab => congrArg g hab

theorem ite {P : Prop} [Decidable P] (hp : L.Rel R p q) (hp' : L.Rel R p' q') :
    L.Rel R (if P then p else p') (if P then q else q') := by
  by_cases h : P
  · rw [if_pos h, if_pos h]
    exact hp
  · rw [if_neg h, if_neg h]
    exact hp'

theorem failHere (cause : Cause) :
    L.Rel R (Decoder.failHere cause) (Decoder.failHere cause) :=
  L.seq L.offset fun _ => L.fail _

theorem ofResult (r : Except Fault α) : L.Respects (Decoder.ofResult r) := by
  cases r with
  | ok a => exact L.pure rfl
  | error e => exact L.fail e

/-! ### Reads -/

theorem skip (size : Nat) (item : String) : L.Respects (Decoder.skip size item) :=
  L.bind (L.pass size item) fun _ _ _ => L.pure rfl

theorem number (size : Nat) (item : String) (make : List UInt8 → α) :
    L.Respects (Decoder.take size item >>= fun bytes => Pure.pure (make bytes)) :=
  L.seq (L.take size item) fun _ => L.pure rfl

theorem u1 (item : String) : L.Respects (Decoder.u1 item) := L.number 1 item _

theorem u2 (item : String) : L.Respects (Decoder.u2 item) := L.number 2 item _

theorem u4 (item : String) : L.Respects (Decoder.u4 item) := L.number 4 item _

theorem i4 (item : String) : L.Respects (Decoder.i4 item) := L.number 4 item _

theorem i8 (item : String) : L.Respects (Decoder.i8 item) := L.number 8 item _

theorem f4 (item : String) : L.Respects (Decoder.f4 item) := L.number 4 item _

theorem f8 (item : String) : L.Respects (Decoder.f8 item) := L.number 8 item _

/-! ### Lists -/

theorem timesUpTo {g : α → β} (hp : L.Rel (fun a b => g a = g b) p q) (n : Nat) :
    L.Rel (fun as bs => as.map g = bs.map g) (Decoder.times n p) (Decoder.times n q) := by
  induction n with
  | zero => exact L.pure rfl
  | succ n ih =>
      refine L.bind hp fun a b hab => L.bind ih fun as bs hrest => L.pure ?_
      rw [List.map_cons, List.map_cons, hab, hrest]

theorem times (hp : L.Rel Eq p q) (n : Nat) :
    L.Rel Eq (Decoder.times n p) (Decoder.times n q) := by
  have hid : L.Rel (fun a b => id a = id b) p q := hp
  refine L.mono (L.timesUpTo hid n) fun as bs h => ?_
  rwa [List.map_id, List.map_id] at h

theorem forM {X : Type} {f : X → Decoder PUnit} (h : ∀ x, L.Respects (f x)) (xs : List X) :
    L.Respects (xs.forM f) := by
  induction xs with
  | nil => exact L.pure rfl
  | cons x xs ih => exact L.seq (h x) fun _ => ih

end Congruence

end Decoder

end ClassFormat
