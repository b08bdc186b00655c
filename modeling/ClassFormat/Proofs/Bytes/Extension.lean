/-
Decoders on longer inputs.

A decoder sees where its input ends in two ways only: a read finds fewer bytes than it
needs, or an attribute declares more than are left.  Either of them stops the decoder
with a fault of its own kind.  Up to there it does the same on an input that goes on.

`Extends` says this of two decoders, of which the second is for the longer input.  It is
a congruence: more bytes are left for the second decoder, and what it does where the
first one is cut does not matter.
-/
import ClassFormat.Proofs.Bytes.Congruence

namespace ClassFormat

/-- The same place in an input that goes on after its end. -/
def Cursor.followedBy (c : Cursor) (t : List UInt8) : Cursor :=
  { c with rest := c.rest ++ t }

namespace Decoder

/-- The second result is what becomes of the first one if the input goes on. -/
inductive Continues {α : Type} (R : α → α → Prop) (t : List UInt8) :
    EStateM.Result Fault Cursor α → EStateM.Result Fault Cursor α → Prop where
  | ok {a b : α} (h : R a b) (c : Cursor) : Continues R t (.ok a c) (.ok b (c.followedBy t))
  | stopped (e : Fault) (c : Cursor) : Continues R t (.error e c) (.error e (c.followedBy t))
  /-- Where the input was too short, anything may come of a longer one. -/
  | cut {e : Fault} (h : e.IsCut) (c : Cursor) (r : EStateM.Result Fault Cursor α) :
      Continues R t (.error e c) r

/-- The second decoder does on a longer input what the first one does, unless that is cut. -/
def Extends {α : Type} (R : α → α → Prop) (p q : Decoder α) : Prop :=
  ∀ t c, Continues R t (p c) (q (c.followedBy t))

namespace Extends

variable {α β : Type} {R : α → α → Prop} {S : β → β → Prop} {p q : Decoder α}

theorem bind {f g : α → Decoder β} (hp : Extends R p q)
    (hf : ∀ a b, R a b → Extends S (f a) (g b)) : Extends S (p >>= f) (q >>= g) := by
  intro t c
  have hpq := hp t c
  show Continues S t (EStateM.bind p f c) (EStateM.bind q g (c.followedBy t))
  unfold EStateM.bind
  generalize p c = r at hpq
  generalize q (c.followedBy t) = s at hpq
  cases hpq with
  | ok hab c' => exact hf _ _ hab t c'
  | stopped e c' => exact .stopped e c'
  | cut h c' => exact .cut h c' _

/-- On a longer input there are at least as many bytes left. -/
theorem remaining : Extends (· ≤ ·) Decoder.remaining Decoder.remaining := by
  intro t c
  have hle : c.remaining ≤ (c.followedBy t).remaining := by
    show c.rest.length ≤ (c.rest ++ t).length
    rw [List.length_append]
    exact Nat.le_add_right ..
  exact .ok hle c

theorem take (size : Nat) (item : String) :
    Extends Eq (Decoder.take size item) (Decoder.take size item) := by
  intro t c
  simp only [Decoder.take]
  by_cases hlen : (c.rest.take size).length = size
  · have hle : size ≤ c.rest.length := by
      rw [List.length_take] at hlen
      omega
    have htake : (c.rest ++ t).take size = c.rest.take size := List.take_append_of_le_length hle
    have hdrop : (c.rest ++ t).drop size = c.rest.drop size ++ t :=
      List.drop_append_of_le_length hle
    rw [if_pos hlen]
    simp only [Cursor.followedBy, htake, hdrop, if_pos hlen]
    exact .ok rfl ⟨c.offset + size, c.rest.drop size, c.passed⟩
  · rw [if_neg hlen]
    exact .cut (.inl rfl) c _

theorem pass (size : Nat) (item : String) :
    Extends Eq (Decoder.pass size item) (Decoder.pass size item) := by
  have hoffset : Extends Eq Decoder.offset Decoder.offset := fun _ c => .ok rfl c
  refine hoffset.bind fun start start' hstart => (take size item).bind fun w w' hw => ?_
  subst hstart hw
  exact fun _ c => .ok rfl { c with passed := ⟨start, size⟩ :: c.passed }

end Extends

/-- What decoders do on longer inputs, as a relation that all of them respect. -/
def extension : Congruence where
  Rel := Extends
  Left := (· ≤ ·)
  view := id
  pure h := fun _ c => .ok h c
  fail e := fun _ c => .stopped e c
  bind := Extends.bind
  offset := fun _ c => .ok rfl c
  remaining := Extends.remaining
  take := Extends.take
  pass := Extends.pass
  left_le := id
  left_pred := Nat.le_of_succ_le_succ
  cut _ _ _ h := fun _ c => .cut h c _

end Decoder

end ClassFormat
