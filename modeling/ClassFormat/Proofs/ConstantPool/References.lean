/-
What constants refer to, and which queries succeed.

`Supports` says for each kind of constant what has to stand behind its indices;
the check that ends the reading of a pool succeeds exactly if the pool supports
all its constants.  In such a pool the queries depend on the kind of one constant
only: whatever a constant of the right kind refers to is there.  A query that
fails always blames the pool.
-/
import ClassFormat.ConstantPool.Decode
import ClassFormat.Proofs.ConstantPool.Slots
import ClassFormat.Proofs.Result

namespace ClassFormat.ConstantPool

variable {pool : ConstantPool}

/-- The constant in the slot of an index.  Index 0 stands for none. -/
def constantAt? (pool : ConstantPool) (index : UInt16) : Option Entry :=
  if index = 0 then none else pool.slots[index.toNat]?.join

/-- A constant of one of the given kinds stands in the slot of the index. -/
def RefersTo (pool : ConstantPool) (index : UInt16) (expected : List Tag) : Prop :=
  ∃ e, pool.constantAt? index = some e ∧ e.tag ∈ expected

/-- Whatever the constant refers to is of the kind it has to be. -/
def Supports (pool : ConstantPool) : Entry → Prop
  | .utf8 _ | .integer _ | .float _ | .long _ | .double _ => True
  | .classRef name | .string name | .methodType name | .moduleRef name | .packageRef name =>
    pool.RefersTo name [.utf8]
  | .nameAndType name descriptor => pool.RefersTo name [.utf8] ∧ pool.RefersTo descriptor [.utf8]
  | .fieldRef cls member | .methodRef cls member | .interfaceMethodRef cls member =>
    pool.RefersTo cls [.classRef] ∧ pool.RefersTo member [.nameAndType]
  | .dynamic _ member | .invokeDynamic _ member => pool.RefersTo member [.nameAndType]
  | .methodHandle kind reference =>
    (1 ≤ kind ∧ kind ≤ 9) ∧ pool.RefersTo reference [.fieldRef, .methodRef, .interfaceMethodRef]

instance (pool : ConstantPool) (index : UInt16) (expected : List Tag) :
    Decidable (pool.RefersTo index expected) :=
  match h : pool.constantAt? index with
  | some e => decidable_of_iff (e.tag ∈ expected) (by simp [RefersTo, h])
  | none => isFalse (by simp [RefersTo, h])

instance (pool : ConstantPool) (e : Entry) : Decidable (pool.Supports e) := by
  cases e <;> unfold Supports <;> infer_instance

/-- The pool supports all its constants. -/
def Linked (pool : ConstantPool) : Prop :=
  ∀ i e, (i, e) ∈ pool.entries → pool.Supports e

instance (pool : ConstantPool) : Decidable pool.Linked :=
  decidable_of_iff (∀ p ∈ pool.entries, pool.Supports p.2)
    ⟨fun h i e hmem => h (i, e) hmem, fun h p hmem => h p.1 p.2 hmem⟩

theorem Linked.supports (h : pool.Linked) {i : Int} {e : Entry} (he : pool.entry i = .ok e) :
    pool.Supports e :=
  h i.toNat e (mem_entries_iff.mpr (entry_ok_iff.mp he).2)

/-! ### Look-ups by index -/

/-- An index resolves exactly if there is a constant in its slot. -/
theorem entry_index_ok_iff {index : UInt16} {e : Entry} :
    pool.entry index.toNat = .ok e ↔ pool.constantAt? index = some e := by
  rw [entry_ok_iff, Int.toNat_natCast]
  unfold constantAt?
  by_cases hzero : index = 0
  · subst hzero
    simp
  · have hpos : index.toNat ≠ 0 := fun h => hzero (UInt16.toNat_inj.mp h)
    rw [if_neg hzero, Option.join_eq_some_iff]
    refine ⟨fun h => h.2, fun h => ⟨by omega, h⟩⟩

theorem refersTo_iff {index : UInt16} {expected : List Tag} :
    pool.RefersTo index expected ↔
      ∃ e, pool.entry index.toNat = .ok e ∧ e.tag ∈ expected :=
  exists_congr fun _ => and_congr_left fun _ => entry_index_ok_iff.symm

/-! ### The check -/

theorem expect_ok_iff {owner : Nat} {index : UInt16} {expected : List Tag} :
    pool.expect owner index expected = .ok () ↔ pool.RefersTo index expected := by
  unfold expect
  rw [result_bind_ok, refersTo_iff]
  refine exists_congr fun e => and_congr_right fun _ => ?_
  split
  · rename_i h
    exact ⟨fun _ => h, fun _ => rfl⟩
  · rename_i h
    exact ⟨fun h' => (by cases h'), fun h' => absurd h' h⟩

theorem checkEntry_ok_iff {owner : Nat} (e : Entry) :
    pool.checkEntry owner e = .ok () ↔ pool.Supports e := by
  have htwo : ∀ {i j : UInt16} {s t : List Tag},
      (do pool.expect owner i s; pool.expect owner j t : Except Fault Unit) = .ok () ↔
        pool.RefersTo i s ∧ pool.RefersTo j t := by
    intro i j s t
    rw [result_bind_ok]
    refine ⟨?_, ?_⟩
    · intro h
      obtain ⟨⟨⟩, hi, hj⟩ := h
      exact ⟨expect_ok_iff.mp hi, expect_ok_iff.mp hj⟩
    · intro h
      obtain ⟨hi, hj⟩ := h
      exact ⟨(), expect_ok_iff.mpr hi, expect_ok_iff.mpr hj⟩
  cases e with
  | utf8 | integer | float | long | double => exact ⟨fun _ => trivial, fun _ => rfl⟩
  | classRef | string | methodType | moduleRef | packageRef | dynamic | invokeDynamic =>
      exact expect_ok_iff
  | nameAndType | fieldRef | methodRef | interfaceMethodRef => exact htwo
  | methodHandle kind reference =>
      show (if (decide (1 ≤ kind) && decide (kind ≤ 9)) = true
          then pool.expect owner reference Tag.memberRefs
          else throw (.unplaced (.badReferenceKind owner kind)) : Except Fault Unit) = _ ↔
        (1 ≤ kind ∧ kind ≤ 9) ∧ _
      simp only [Bool.and_eq_true, decide_eq_true_eq]
      split
      · rename_i h
        rw [expect_ok_iff]
        exact ⟨fun h' => ⟨h, h'⟩, fun h' => h'.2⟩
      · rename_i h
        exact ⟨fun h' => (by cases h'), fun h' => absurd h'.1 h⟩

theorem check_ok_iff : pool.check = .ok () ↔ pool.Linked := by
  unfold check Linked
  rw [result_forM_ok]
  refine ⟨?_, ?_⟩
  · intro h i e hmem
    exact (checkEntry_ok_iff e).mp (h (i, e) hmem)
  · intro h p hmem
    obtain ⟨i, e⟩ := p
    exact (checkEntry_ok_iff e).mpr (h i e hmem)

/-! ### Queries -/

theorem utf8_ok_iff {i : Int} {t : Text} :
    pool.utf8 i = .ok t ↔ pool.entry i = .ok (.utf8 t) := by
  unfold utf8
  rw [result_bind_ok]
  refine ⟨?_, ?_⟩
  · intro h
    obtain ⟨e, he, ht⟩ := h
    split at ht
    · cases ht
      exact he
    · cases ht
  · intro h
    exact ⟨_, h, rfl⟩

theorem get_ok_iff {i : Int} {expected : List Tag} {e : Entry} (hne : expected ≠ []) :
    pool.get i expected = .ok e ↔ pool.entry i = .ok e ∧ e.tag ∈ expected := by
  unfold get
  rw [result_bind_ok]
  have hempty : expected.isEmpty = false := by simpa using hne
  simp only [hempty, Bool.false_or, decide_eq_true_eq]
  refine ⟨?_, ?_⟩
  · intro h
    obtain ⟨e', he, h⟩ := h
    split at h
    · rename_i htag
      cases h
      exact ⟨he, htag⟩
    · cases h
  · intro h
    obtain ⟨he, htag⟩ := h
    exact ⟨e, he, if_pos htag⟩

/-- A text behind an index is there if the pool supports the constant with the index. -/
theorem exists_utf8 {index : UInt16} (h : pool.RefersTo index [.utf8]) :
    ∃ t, pool.utf8 index.toNat = .ok t := by
  obtain ⟨e, he, htag⟩ := refersTo_iff.mp h
  cases e with
  | utf8 t => exact ⟨t, utf8_ok_iff.mpr he⟩
  | _ => simp [Constant.tag] at htag

theorem className_ok_iff {i : Int} {t : Text} :
    pool.className i = .ok t ↔
      ∃ n, pool.entry i = .ok (.classRef n) ∧ pool.utf8 n.toNat = .ok t := by
  unfold className
  rw [result_bind_ok]
  refine ⟨?_, ?_⟩
  · intro h
    obtain ⟨e, he, ht⟩ := h
    split at ht
    · exact ⟨_, he, ht⟩
    · cases ht
  · intro h
    obtain ⟨n, he, ht⟩ := h
    exact ⟨_, he, ht⟩

/-- A class has a name, and nothing else has one. -/
theorem exists_className_iff (hp : pool.Linked) {i : Int} :
    (∃ t, pool.className i = .ok t) ↔ ∃ e, pool.entry i = .ok e ∧ e.tag = .classRef := by
  refine ⟨?_, ?_⟩
  · intro h
    obtain ⟨t, ht⟩ := h
    obtain ⟨n, he, -⟩ := className_ok_iff.mp ht
    exact ⟨_, he, rfl⟩
  · intro h
    obtain ⟨e, he, htag⟩ := h
    cases e with
    | classRef n =>
        obtain ⟨t, ht⟩ := exists_utf8 (hp.supports he)
        exact ⟨t, className_ok_iff.mpr ⟨n, he, ht⟩⟩
    | _ => simp [Constant.tag] at htag

theorem exists_nameAndType_iff (hp : pool.Linked) {i : Int} :
    (∃ p, pool.nameAndType i = .ok p) ↔ ∃ e, pool.entry i = .ok e ∧ e.tag = .nameAndType := by
  unfold nameAndType
  refine ⟨?_, ?_⟩
  · intro h
    obtain ⟨p, h⟩ := h
    obtain ⟨e, he, h⟩ := result_bind_ok.mp h
    split at h
    · exact ⟨_, he, rfl⟩
    · cases h
  · intro h
    obtain ⟨e, he, htag⟩ := h
    cases e with
    | nameAndType name descriptor =>
        obtain ⟨hname, hdescriptor⟩ := hp.supports he
        obtain ⟨n, hn⟩ := exists_utf8 hname
        obtain ⟨d, hd⟩ := exists_utf8 hdescriptor
        refine ⟨(n, d), result_bind_ok.mpr ⟨_, he, ?_⟩⟩
        exact result_bind_ok.mpr ⟨n, hn, result_bind_ok.mpr ⟨d, hd, rfl⟩⟩
    | _ => simp [Constant.tag] at htag

theorem exists_literal_iff (hp : pool.Linked) {i : Int} :
    (∃ v, pool.literal i = .ok v) ↔ ∃ e, pool.entry i = .ok e ∧ e.tag ∈ Tag.loadable := by
  unfold literal
  refine ⟨?_, ?_⟩
  · intro h
    obtain ⟨v, h⟩ := h
    obtain ⟨e, he, h⟩ := result_bind_ok.mp h
    refine ⟨e, he, ?_⟩
    split at h
    · exact (by decide : Tag.integer ∈ Tag.loadable)
    · exact (by decide : Tag.float ∈ Tag.loadable)
    · exact (by decide : Tag.long ∈ Tag.loadable)
    · exact (by decide : Tag.double ∈ Tag.loadable)
    · exact (by decide : Tag.string ∈ Tag.loadable)
    · cases h
  · intro h
    obtain ⟨e, he, htag⟩ := h
    cases e with
    | integer v => exact ⟨.integer v, result_bind_ok.mpr ⟨_, he, rfl⟩⟩
    | float v => exact ⟨.float v, result_bind_ok.mpr ⟨_, he, rfl⟩⟩
    | long v => exact ⟨.long v, result_bind_ok.mpr ⟨_, he, rfl⟩⟩
    | double v => exact ⟨.double v, result_bind_ok.mpr ⟨_, he, rfl⟩⟩
    | string n =>
        obtain ⟨t, ht⟩ := exists_utf8 (hp.supports he)
        exact ⟨.text t, result_bind_ok.mpr ⟨_, he, result_bind_ok.mpr ⟨t, ht, rfl⟩⟩⟩
    | _ => simp [Constant.tag, Tag.loadable] at htag

/-! ### Faults -/

theorem kind_of_mismatch {α : Type} {i : Int} {expected : List Tag} {e : Entry} {f : Fault}
    (h : (mismatch i expected e : Except Fault α) = .error f) :
    f.cause.kind = .constantPool := by
  cases h
  rfl

theorem kind_of_utf8_error {i : Int} {f : Fault} (h : pool.utf8 i = .error f) :
    f.cause.kind = .constantPool := by
  unfold utf8 at h
  rcases result_bind_error.mp h with h | ⟨e, -, h⟩
  · exact kind_of_entry_error h
  · split at h
    · cases h
    · exact kind_of_mismatch h

theorem kind_of_className_error {i : Int} {f : Fault} (h : pool.className i = .error f) :
    f.cause.kind = .constantPool := by
  unfold className at h
  rcases result_bind_error.mp h with h | ⟨e, -, h⟩
  · exact kind_of_entry_error h
  · split at h
    · exact kind_of_utf8_error h
    · exact kind_of_mismatch h

theorem kind_of_nameAndType_error {i : Int} {f : Fault} (h : pool.nameAndType i = .error f) :
    f.cause.kind = .constantPool := by
  unfold nameAndType at h
  rcases result_bind_error.mp h with h | ⟨e, -, h⟩
  · exact kind_of_entry_error h
  · split at h
    · rcases result_bind_error.mp h with h | ⟨n, -, h⟩
      · exact kind_of_utf8_error h
      · rcases result_bind_error.mp h with h | ⟨d, -, h⟩
        · exact kind_of_utf8_error h
        · cases h
    · exact kind_of_mismatch h

theorem kind_of_literal_error {i : Int} {f : Fault} (h : pool.literal i = .error f) :
    f.cause.kind = .constantPool := by
  unfold literal at h
  rcases result_bind_error.mp h with h | ⟨e, -, h⟩
  · exact kind_of_entry_error h
  · split at h
    · cases h
    · cases h
    · cases h
    · cases h
    · rcases result_bind_error.mp h with h | ⟨t, -, h⟩
      · exact kind_of_utf8_error h
      · cases h
    · exact kind_of_mismatch h

end ClassFormat.ConstantPool
