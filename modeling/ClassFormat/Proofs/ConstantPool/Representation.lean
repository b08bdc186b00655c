/-
What is known about a pool that has been read.

Everything later relies on it: indices into the pool are resolved by numbers, and
whether a query succeeds must depend on one constant only.  `Representation`
collects the facts.  They hold because a pool is read from a well-formed layout:
the slots come from laying constants out one after the other, and the references
have been checked.
-/
import ClassFormat.Proofs.ConstantPool.Layout

namespace ClassFormat.ConstantPool

/-- A pool of the declared count that can be relied on. -/
structure Representation (pool : ConstantPool) (declared : Nat) : Prop where
  /-- There are as many slots as the count says. -/
  count_eq : pool.count = declared
  /-- Slot 0 is empty, and so is the one behind a long or a double, but no other. -/
  emptySlot : ∀ i < declared, pool.slots[i]? = some none ↔
    i = 0 ∨ ∃ e, pool.slots[i - 1]? = some (some e) ∧ (e.tag = .long ∨ e.tag = .double)
  /-- The second slot of a long or a double lies within the count. -/
  secondSlot : ∀ i e, pool.slots[i]? = some (some e) → e.tag = .long ∨ e.tag = .double →
    i + 1 < declared
  /-- The listing consists of the constants in the slots, by their numbers. -/
  listed : ∀ i e, (i, e) ∈ pool.entries ↔ pool.slots[i]? = some (some e)
  /-- The listing is in ascending order, so no number comes twice. -/
  ascending : pool.entries.Pairwise fun a b => a.1 < b.1
  /-- An integer resolves exactly if it is the number of a listed constant. -/
  resolves : ∀ (i : Int) e, pool.entry i = .ok e ↔ ∃ n : Nat, i = n ∧ (n, e) ∈ pool.entries
  /-- Every reference leads to a constant of the right kind. -/
  linked : ∀ i e, (i, e) ∈ pool.entries → pool.Supports e
  /-- Classes have a name, and nothing else has. -/
  className : ∀ i : Int,
    (∃ t, pool.className i = .ok t) ↔ ∃ e, pool.entry i = .ok e ∧ e.tag = .classRef
  /-- Names with descriptors resolve to both, and nothing else does. -/
  nameAndType : ∀ i : Int,
    (∃ p, pool.nameAndType i = .ok p) ↔ ∃ e, pool.entry i = .ok e ∧ e.tag = .nameAndType
  /-- Numbers and strings have a value, and nothing else has. -/
  literal : ∀ i : Int,
    (∃ v, pool.literal i = .ok v) ↔ ∃ e, pool.entry i = .ok e ∧ e.tag ∈ Tag.loadable
  /-- A query that does not succeed blames the pool. -/
  blames : ∀ (i : Int) f, pool.entry i = .error f ∨ pool.className i = .error f ∨
    pool.nameAndType i = .error f ∨ pool.literal i = .error f → f.cause.kind = .constantPool

theorem width_eq_two {e : Entry} : e.width = 2 ↔ e.tag = .long ∨ e.tag = .double := by
  rw [Constant.width_eq]
  split
  · rename_i h
    exact ⟨fun _ => h, fun _ => rfl⟩
  · rename_i h
    exact ⟨fun h' => absurd h' (by decide), fun h' => absurd h' h⟩

/-- Slot 0 of a pool of constants is empty, so numbers begin with 1. -/
theorem resolves_ofEntries (es : List Entry) (i : Int) (e : Entry) :
    (ofEntries es).entry i = .ok e ↔ ∃ n : Nat, i = n ∧ (n, e) ∈ (ofEntries es).entries := by
  rw [entry_ok_iff]
  refine ⟨?_, ?_⟩
  · intro h
    obtain ⟨hpos, hslot⟩ := h
    exact ⟨i.toNat, by omega, mem_entries_iff.mpr hslot⟩
  · intro h
    obtain ⟨n, rfl, hmem⟩ := h
    have hslot := mem_entries_iff.mp hmem
    cases n with
    | zero => cases hslot
    | succ n => exact ⟨by omega, hslot⟩

/-- A pool of constants that support each other can be relied on. -/
theorem representation_ofEntries (es : List Entry) (h : (ofEntries es).Linked) :
    (ofEntries es).Representation (1 + Constant.totalWidth es) where
  count_eq := count_ofEntries es
  emptySlot := by
    intro i _
    rw [slot_empty_iff]
    refine or_congr_right ?_
    refine ⟨?_, ?_⟩
    · intro h
      obtain ⟨j, e, rfl, hslot, hwidth⟩ := h
      exact ⟨e, hslot, width_eq_two.mp hwidth⟩
    · intro h
      obtain ⟨e, hslot, htag⟩ := h
      cases i with
      | zero => cases hslot
      | succ i => exact ⟨i, e, rfl, hslot, width_eq_two.mpr htag⟩
  secondSlot := by
    intro i e hslot htag
    have hempty : (ofEntries es).slots[i + 1]? = some none :=
      (slot_empty_iff es (i + 1)).mpr (.inr ⟨i, e, rfl, hslot, width_eq_two.mpr htag⟩)
    rw [← count_ofEntries]
    exact (List.getElem?_eq_some_iff.mp hempty).1
  listed := fun _ _ => mem_entries_iff
  ascending := entries_ascending _
  resolves := resolves_ofEntries es
  linked := h
  className := fun _ => exists_className_iff h
  nameAndType := fun _ => exists_nameAndType_iff h
  literal := fun _ => exists_literal_iff h
  blames := by
    intro i f h
    rcases h with hf | hf | hf | hf
    · exact kind_of_entry_error hf
    · exact kind_of_className_error hf
    · exact kind_of_nameAndType_error hf
    · exact kind_of_literal_error hf

/-- The first two bytes of a layout say how many slots the pool has. -/
theorem bigEndian_take_encode {xs : PoolLayout} (h : PoolLayout.count xs < 65536)
    (t : List UInt8) :
    bigEndian ((PoolLayout.encode xs ++ t).take 2) = PoolLayout.count xs := by
  have htake : (PoolLayout.encode xs ++ t).take 2 = Encoder.u2 (.ofNat (PoolLayout.count xs)) := by
    unfold PoolLayout.encode
    rw [List.append_assoc]
    exact List.take_left' (Encoder.length_u2 _)
  rw [htake]
  unfold Encoder.u2
  rw [bigEndian_bigEndianBytes 2 _ (UInt16.toNat_lt _)]
  exact UInt16.toNat_ofNat_of_lt' h

/-- **A pool that has been read has the declared count and can be relied on.** -/
theorem decode_representation {c c' : Cursor} {pool : ConstantPool}
    (h : decode c = .ok pool c') : pool.Representation (bigEndian (c.rest.take 2)) := by
  obtain ⟨w, ⟨xs, hok, rfl, rfl⟩, hover⟩ := reads_decode.explains h
  have hcount : bigEndian (c.rest.take 2) = PoolLayout.count xs := by
    rw [hover.rest]
    exact bigEndian_take_encode hok.fits c'.rest
  have hwidth : PoolLayout.count xs = 1 + Constant.totalWidth (xs.map RawConstant.view) := by
    rw [← count_ofEntries]
    exact (PoolLayout.count_view xs).symm
  rw [hcount, hwidth]
  exact representation_ofEntries _ hok.linked

/-- A class whose name follows, and a long in the last two slots. -/
theorem decode_representation_forward :
    ∃ pool c', decode (.start [0, 5, 7, 0, 2, 1, 0, 1, 0x41, 5, 0, 0, 0, 0, 0, 0, 0, 9, 0xFF])
        = .ok pool c' ∧ pool.Representation 5 := by
  have hread : ∃ pool c', decode (.start [0, 5, 7, 0, 2, 1, 0, 1, 0x41, 5, 0, 0, 0, 0, 0, 0, 0, 9,
      0xFF]) = .ok pool c' := by decide +kernel
  obtain ⟨pool, c', h⟩ := hread
  exact ⟨pool, c', h, decode_representation h⟩

end ClassFormat.ConstantPool
