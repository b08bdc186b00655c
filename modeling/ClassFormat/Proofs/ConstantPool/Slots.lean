/-
Where the constants of a pool stand.

A pool is a list of slots, and its queries are about numbers.  This file ties
the two together, first for pools in general: `entry` answers for the numbers
of the slots that hold a constant and for no other integer, and `entries` lists
exactly those numbers in ascending order.

Pools that come from a list of constants have in addition empty slots at the
right places only: slot 0, and the one behind each constant that takes two.
-/
import ClassFormat.ConstantPool.Basic

namespace ClassFormat

namespace Constant

variable {α : Type}

theorem width_eq (e : Constant α) :
    e.width = if e.tag = .long ∨ e.tag = .double then 2 else 1 := by
  cases e <;> rfl

theorem width_cases (e : Constant α) : e.width = 1 ∨ e.width = 2 := by
  rw [width_eq]
  split
  · exact .inr rfl
  · exact .inl rfl

theorem slots_narrow {e : Constant α} (h : e.width = 1) : e.slots = [some e] := by
  simp [slots, h]

theorem slots_wide {e : Constant α} (h : e.width = 2) : e.slots = [some e, none] := by
  simp [slots, h]

@[simp] theorem length_slots (e : Constant α) : e.slots.length = e.width := by
  have := e.width_pos
  simp only [slots, List.length_cons, List.length_replicate]
  omega

/-- How many slots constants take together. -/
def totalWidth (es : List (Constant α)) : Nat :=
  es.foldr (fun e total => e.width + total) 0

@[simp] theorem totalWidth_nil : totalWidth ([] : List (Constant α)) = 0 := rfl

@[simp] theorem totalWidth_cons (e : Constant α) (es : List (Constant α)) :
    totalWidth (e :: es) = e.width + totalWidth es := rfl

theorem length_flatMap_slots (es : List (Constant α)) :
    (es.flatMap slots).length = totalWidth es := by
  induction es with
  | nil => rfl
  | cons e es ih => rw [List.flatMap_cons, List.length_append, length_slots, ih, totalWidth_cons]

/-- The constants with their numbers, where the first one gets the number `first`. -/
def numbered (first : Nat) : List (Constant α) → List (Nat × Constant α)
  | [] => []
  | e :: es => (first, e) :: numbered (first + e.width) es

/-- The slot is the one behind a constant that takes two. -/
def BehindWide (slots : List (Option (Constant α))) (k : Nat) : Prop :=
  ∃ j e, k = j + 1 ∧ slots[j]? = some (some e) ∧ e.width = 2

theorem not_behindWide_zero (slots : List (Option (Constant α))) : ¬ BehindWide slots 0 := by
  intro h
  obtain ⟨j, e, hj, -⟩ := h
  cases hj

theorem behindWide_cons (slot : Option (Constant α)) (slots : List (Option (Constant α)))
    (k : Nat) : BehindWide (slot :: slots) (k + 1) ↔
      (k = 0 ∧ ∃ e, slot = some e ∧ e.width = 2) ∨ BehindWide slots k := by
  refine ⟨?_, ?_⟩
  · intro h
    obtain ⟨j, e, hk, hj, hw⟩ := h
    cases j with
    | zero => exact .inl ⟨Nat.succ.inj hk, e, Option.some.inj hj, hw⟩
    | succ j => exact .inr ⟨j, e, Nat.succ.inj hk, by rwa [List.getElem?_cons_succ] at hj, hw⟩
  · intro h
    rcases h with ⟨rfl, e, rfl, hw⟩ | ⟨j, e, rfl, hj, hw⟩
    · exact ⟨0, e, rfl, rfl, hw⟩
    · exact ⟨j + 1, e, rfl, by rwa [List.getElem?_cons_succ], hw⟩

/--
A slot is empty only behind a constant that takes two, and the slot behind such
a constant is there and empty.
-/
theorem slot_empty_iff (es : List (Constant α)) :
    ∀ k, (es.flatMap slots)[k]? = some none ↔ BehindWide (es.flatMap slots) k := by
  induction es with
  | nil => simp [BehindWide]
  | cons e es ih =>
      intro k
      rw [List.flatMap_cons]
      rcases e.width_cases with h | h
      · rw [slots_narrow h, List.singleton_append]
        cases k with
        | zero => simp [not_behindWide_zero]
        | succ k =>
            rw [List.getElem?_cons_succ, ih k, behindWide_cons]
            simp [h]
      · rw [slots_wide h, List.cons_append, List.singleton_append]
        match k with
        | 0 => simp [not_behindWide_zero]
        | 1 => exact ⟨fun _ => ⟨0, e, rfl, rfl, h⟩, fun _ => rfl⟩
        | k + 2 =>
            rw [List.getElem?_cons_succ, List.getElem?_cons_succ, ih k, behindWide_cons,
              behindWide_cons]
            simp

end Constant

namespace ConstantPool

variable {pool : ConstantPool}

/-! ### Any pool -/

/-- A number resolves exactly if a constant stands in its slot. -/
theorem entry_ok_iff {i : Int} {e : Entry} :
    pool.entry i = .ok e ↔ 0 < i ∧ pool.slots[i.toNat]? = some (some e) := by
  unfold entry
  split
  · rename_i hrange
    simp only [Bool.and_eq_true, decide_eq_true_eq] at hrange
    split
    · rename_i e' hslot
      simp [hslot, hrange.1]
    · rename_i hslot
      refine ⟨fun h => (by cases h), fun h => absurd h.2 (hslot e)⟩
  · rename_i hrange
    refine ⟨fun h => (by cases h), fun ⟨hpos, hslot⟩ => ?_⟩
    have hlt : i.toNat < pool.slots.length := (List.getElem?_eq_some_iff.mp hslot).1
    refine absurd ?_ hrange
    simp only [Bool.and_eq_true, decide_eq_true_eq]
    refine ⟨hpos, ?_⟩
    show i < (pool.slots.length : Int)
    omega

/-- A number that does not resolve is reported as a fault of the pool. -/
theorem kind_of_entry_error {i : Int} {f : Fault} (h : pool.entry i = .error f) :
    f.cause.kind = .constantPool := by
  unfold entry at h
  split at h
  · split at h
    · cases h
    · cases h
      rfl
  · cases h
    rfl

theorem mem_entries_iff {i : Nat} {e : Entry} :
    (i, e) ∈ pool.entries ↔ pool.slots[i]? = some (some e) := by
  unfold entries
  rw [List.mem_filterMap]
  refine ⟨?_, ?_⟩
  · intro h
    obtain ⟨⟨slot, j⟩, hmem, hval⟩ := h
    obtain ⟨e', rfl, heq⟩ := Option.map_eq_some_iff.mp hval
    obtain ⟨rfl, rfl⟩ := Prod.mk.inj heq
    exact List.mem_zipIdx_iff_getElem?.mp hmem
  · intro hslot
    exact ⟨(some e, i), List.mem_zipIdx_iff_getElem?.mpr hslot, rfl⟩

/-- The listing is in ascending order, so no number comes twice. -/
theorem entries_ascending (pool : ConstantPool) :
    pool.entries.Pairwise fun a b => a.1 < b.1 := by
  have hidx : pool.slots.zipIdx.Pairwise fun a b => a.2 < b.2 := by
    rw [← List.pairwise_map, List.zipIdx_map_snd]
    exact List.pairwise_lt_range'
  refine List.Pairwise.filterMap _ ?_ hidx
  intro a b hab c hc d hd
  obtain ⟨slot, i⟩ := a
  obtain ⟨slot', j⟩ := b
  obtain ⟨i', e⟩ := c
  obtain ⟨j', e'⟩ := d
  obtain ⟨_, _, heq⟩ := Option.map_eq_some_iff.mp hc
  obtain ⟨_, _, heq'⟩ := Option.map_eq_some_iff.mp hd
  rw [← (Prod.mk.inj heq).1, ← (Prod.mk.inj heq').1]
  exact hab

/-! ### Pools of a list of constants -/

theorem count_ofEntries (es : List Entry) :
    (ofEntries es).count = 1 + Constant.totalWidth es := by
  show (none :: es.flatMap Constant.slots).length = _
  rw [List.length_cons, Constant.length_flatMap_slots, Nat.add_comm]

theorem slot_empty_iff (es : List Entry) (i : Nat) :
    (ofEntries es).slots[i]? = some none ↔
      i = 0 ∨ ∃ j e, i = j + 1 ∧ (ofEntries es).slots[j]? = some (some e) ∧ e.width = 2 := by
  show (none :: es.flatMap Constant.slots)[i]? = some none ↔
    i = 0 ∨ Constant.BehindWide (none :: es.flatMap Constant.slots) i
  cases i with
  | zero => simp
  | succ i =>
      rw [List.getElem?_cons_succ, Constant.slot_empty_iff, Constant.behindWide_cons]
      simp

/-- Each constant gets the number of the first of its slots. -/
theorem entries_ofEntries (es : List Entry) :
    (ofEntries es).entries = Constant.numbered 1 es := by
  have hfrom : ∀ (es : List Entry) (first : Nat),
      ((es.flatMap Constant.slots).zipIdx first).filterMap
        (fun (slot, i) => slot.map (i, ·)) = Constant.numbered first es := by
    intro es
    induction es with
    | nil => intro first; rfl
    | cons e es ih =>
        intro first
        rw [List.flatMap_cons, Constant.numbered, ← ih]
        rcases e.width_cases with h | h
        · rw [Constant.slots_narrow h, h]
          rfl
        · rw [Constant.slots_wide h, h]
          rfl
  exact hfrom es 1

end ConstantPool

end ClassFormat
