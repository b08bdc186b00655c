/-
What an index stands for.

Layouts keep the indices that a file holds, and what they show is the text or the
value behind them.  It is taken from the slots of the pool here, and not from the
answers of the reader, so that it says what these have to be.  The functions are
total: they give something even for an index that leads nowhere, and the conditions
on a layout see to it that this does not happen.
-/
import ClassFormat.Annotation
import ClassFormat.Proofs.Bytes.Reading
import ClassFormat.Proofs.ConstantPool.References

namespace ClassFormat

open Decoder

namespace ConstantPool

variable {pool : ConstantPool}

/-- The text in the slot of an index. -/
def textAt (pool : ConstantPool) (index : UInt16) : Text :=
  match pool.constantAt? index with
  | some (.utf8 t) => t
  | _ => []

/-- The text that the class in the slot of an index has for its name. -/
def classNameAt (pool : ConstantPool) (index : UInt16) : Text :=
  match pool.constantAt? index with
  | some (.classRef name) => pool.textAt name
  | _ => []

/-- The number in the slot of an index, or the text that the string there refers to. -/
def literalAt (pool : ConstantPool) (index : UInt16) : Literal :=
  match pool.constantAt? index with
  | some (.integer v) => .integer v
  | some (.float v) => .float v
  | some (.long v) => .long v
  | some (.double v) => .double v
  | some (.string text) => .text (pool.textAt text)
  | _ => .text []

theorem settles_utf8 (index : UInt16) :
    Settles (pool.utf8 index.toNat) (pool.RefersTo index [.utf8]) (pool.textAt index) := by
  refine settles_of_exists ⟨?_, exists_utf8⟩ fun t ht => ?_
  · intro h
    obtain ⟨t, ht⟩ := h
    exact refersTo_iff.mpr ⟨.utf8 t, utf8_ok_iff.mp ht, List.mem_singleton.mpr rfl⟩
  · unfold textAt
    rw [entry_index_ok_iff.mp (utf8_ok_iff.mp ht)]

theorem exists_className_index (hp : pool.Linked) (index : UInt16) :
    (∃ t, pool.className index.toNat = .ok t) ↔ pool.RefersTo index [.classRef] := by
  rw [exists_className_iff hp, refersTo_iff]
  exact exists_congr fun e => and_congr_right fun _ => List.mem_singleton.symm

theorem settles_className (hp : pool.Linked) (index : UInt16) :
    Settles (pool.className index.toNat) (pool.RefersTo index [.classRef])
      (pool.classNameAt index) := by
  refine settles_of_exists (exists_className_index hp index) fun t ht => ?_
  obtain ⟨name, he, hname⟩ := className_ok_iff.mp ht
  unfold classNameAt
  rw [entry_index_ok_iff.mp he]
  exact ((settles_utf8 name t).mp hname).2

theorem exists_literal_index (hp : pool.Linked) (index : UInt16) :
    (∃ v, pool.literal index.toNat = .ok v) ↔ pool.RefersTo index Tag.loadable :=
  (exists_literal_iff hp).trans refersTo_iff.symm

theorem settles_literal (hp : pool.Linked) (index : UInt16) :
    Settles (pool.literal index.toNat) (pool.RefersTo index Tag.loadable)
      (pool.literalAt index) := by
  refine settles_of_exists (exists_literal_index hp index) fun v hv => ?_
  obtain ⟨e, he, h⟩ := result_bind_ok.mp hv
  unfold literalAt
  rw [entry_index_ok_iff.mp he]
  cases e with
  | string text =>
      obtain ⟨t, ht, hvalue⟩ := result_bind_ok.mp h
      cases hvalue
      exact congrArg Literal.text ((settles_utf8 text t).mp ht).2
  | integer | float | long | double =>
      cases h
      rfl
  | _ => cases h

/--
The look-ups by which a class answers.  Each succeeds exactly where a constant of the right kind
stands, and gives what that constant says.
-/
structure AnswersBySlots (pool : ConstantPool) : Prop where
  utf8 : ∀ index : UInt16,
    Settles (pool.utf8 index.toNat) (pool.RefersTo index [.utf8]) (pool.textAt index)
  className : ∀ index : UInt16,
    Settles (pool.className index.toNat) (pool.RefersTo index [.classRef]) (pool.classNameAt index)
  literal : ∀ index : UInt16,
    Settles (pool.literal index.toNat)
      (pool.RefersTo index [.integer, .float, .long, .double, .string]) (pool.literalAt index)

theorem Linked.answersBySlots (hp : pool.Linked) : pool.AnswersBySlots :=
  ⟨settles_utf8, settles_className hp, settles_literal hp⟩

/-- A value of a primitive type is the number of a constant of the kind for that type. -/
theorem primitive_ok {type : Primitive} {index : UInt16} {v : Literal}
    (h : pool.primitive type index.toNat = .ok v) :
    pool.RefersTo index [type.constantTag] ∧ pool.literalAt index = v := by
  obtain ⟨e, he, h⟩ := result_bind_ok.mp h
  have hslot := entry_index_ok_iff.mp he
  unfold RefersTo literalAt
  rw [hslot]
  have hkind : e.tag = type.constantTag → ∃ e', some e = some e' ∧ e'.tag ∈ [type.constantTag] :=
    fun htag => ⟨e, rfl, List.mem_singleton.mpr htag⟩
  split at h
  case h_5 => cases h
  all_goals
    rename_i htag
    cases h
    exact ⟨hkind htag.symm, rfl⟩

theorem settles_primitive (type : Primitive) (index : UInt16) :
    Settles (pool.primitive type index.toNat) (pool.RefersTo index [type.constantTag])
      (pool.literalAt index) := by
  refine settles_of_exists ⟨?_, ?_⟩ fun v hv => (primitive_ok hv).2
  · intro h
    obtain ⟨v, hv⟩ := h
    exact (primitive_ok hv).1
  · intro h
    obtain ⟨e, he, htag⟩ := refersTo_iff.mp h
    have htag' : e.tag = type.constantTag := List.mem_singleton.mp htag
    unfold primitive
    rw [he]
    cases type <;> cases e <;> cases htag' <;> exact ⟨_, rfl⟩

/-- An index and the text behind it. -/
theorem reads_decodeText (item : String) :
    (pool.decodeText item).Reads
      (written (fun index => pool.RefersTo index [.utf8]) Encoder.u2 pool.textAt) := by
  refine ((reads_u2 item).andThen fun index _ =>
    reads_ofResult (settles_utf8 index)).rebuild id ?_ ?_
  · intro index h
    exact ⟨h.2, rfl, rfl⟩
  · intro index hindex
    exact ⟨index, ⟨trivial, hindex⟩, rfl⟩

end ConstantPool

end ClassFormat
