/-
When a computation that may stop with a fault succeeds.
-/
import ClassFormat.Fault

namespace ClassFormat

variable {α β : Type}

theorem result_bind_ok {r : Except Fault α} {f : α → Except Fault β} {b : β} :
    (r >>= f) = .ok b ↔ ∃ a, r = .ok a ∧ f a = .ok b := by
  cases r with
  | ok a => exact ⟨fun h => ⟨a, rfl, h⟩, fun ⟨_, ha, h⟩ => by cases ha; exact h⟩
  | error e => exact ⟨fun h => (by cases h), fun ⟨_, ha, _⟩ => by cases ha⟩

theorem result_bind_error {r : Except Fault α} {f : α → Except Fault β} {e : Fault} :
    (r >>= f) = .error e ↔ r = .error e ∨ ∃ a, r = .ok a ∧ f a = .error e := by
  cases r with
  | ok a =>
      refine ⟨fun h => .inr ⟨a, rfl, h⟩, ?_⟩
      intro h
      rcases h with h | ⟨_, ha, h⟩
      · cases h
      · cases ha
        exact h
  | error e' =>
      refine ⟨fun h => .inl (by cases h; rfl), ?_⟩
      intro h
      rcases h with h | ⟨_, ha, _⟩
      · cases h
        rfl
      · cases ha

/-- A check of all items succeeds if it does for each of them. -/
theorem result_forM_ok {f : α → Except Fault Unit} (xs : List α) :
    xs.forM f = .ok () ↔ ∀ x ∈ xs, f x = .ok () := by
  induction xs with
  | nil => exact ⟨fun _ x hx => absurd hx (by simp), fun _ => rfl⟩
  | cons x xs ih =>
      show (f x >>= fun _ => xs.forM f) = _ ↔ _
      rw [result_bind_ok, List.forall_mem_cons]
      refine ⟨?_, ?_⟩
      · intro h
        obtain ⟨⟨⟩, hx, hxs⟩ := h
        exact ⟨hx, ih.mp hxs⟩
      · intro h
        obtain ⟨hx, hxs⟩ := h
        exact ⟨(), hx, ih.mpr hxs⟩

/-- Whether a computation stopped with a given fault can be told by looking at it. -/
instance (r : Except Fault α) (e : Fault) : Decidable (r = .error e) :=
  match r with
  | .ok _ => isFalse nofun
  | .error e' => decidable_of_iff (e' = e) (Except.error.injEq e' e ▸ Iff.rfl)

/-- The computation gives a value. -/
def Succeeds (r : Except Fault α) : Prop :=
  ∃ a, r = .ok a

namespace Succeeds

theorem pure (a : α) : Succeeds (Pure.pure a) := ⟨a, rfl⟩

theorem bind {r : Except Fault α} {f : α → Except Fault β} (hr : Succeeds r)
    (hf : ∀ a, r = .ok a → Succeeds (f a)) : Succeeds (r >>= f) := by
  obtain ⟨a, ha⟩ := hr
  obtain ⟨b, hb⟩ := hf a ha
  exact ⟨b, result_bind_ok.mpr ⟨a, ha, hb⟩⟩

theorem ite {P : Prop} [Decidable P] {r s : Except Fault α} (hr : Succeeds r) (hs : Succeeds s) :
    Succeeds (if P then r else s) := by
  by_cases h : P
  · rw [if_pos h]
    exact hr
  · rw [if_neg h]
    exact hs

/-- A list of computations succeeds if each of them does. -/
theorem mapM {f : α → Except Fault β} {xs : List α} (h : ∀ x ∈ xs, Succeeds (f x)) :
    Succeeds (xs.mapM f) := by
  induction xs with
  | nil => exact ⟨[], rfl⟩
  | cons x xs ih =>
      obtain ⟨hx, hxs⟩ := List.forall_mem_cons.mp h
      rw [List.mapM_cons]
      exact hx.bind fun _ _ => (ih hxs).bind fun _ _ => .pure _

theorem optionMapM {f : α → Except Fault β} {o : Option α} (h : ∀ x, o = some x → Succeeds (f x)) :
    Succeeds (o.mapM f) := by
  cases o with
  | none => exact ⟨none, rfl⟩
  | some x =>
      obtain ⟨b, hb⟩ := h x rfl
      refine ⟨some b, ?_⟩
      show some <$> f x = _
      rw [hb]
      rfl

end Succeeds

end ClassFormat
