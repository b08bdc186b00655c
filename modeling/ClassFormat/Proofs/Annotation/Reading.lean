/-
Annotations are read from their layouts.

The bound on the depth is what the recursion of the reader is on, so the induction
is on it as well: a reader with bound `n` reads exactly the layouts that nest no
deeper than `n`.  The bound that is used in the end is the number of bytes that are
left, and that is never too small.

The cases for the mark of a value are split on the character, since that is how
the reader chooses; a layout of another kind has another mark.
-/
import ClassFormat.Proofs.Annotation.Layout

namespace ClassFormat

open Decoder

variable {pool : ConstantPool} {value : Decoder ElementValue} {okV : ValueLayout → Prop}

theorem Element.reads_decodeWith
    (hv : value.Reads (written okV ValueLayout.encode (ValueLayout.view pool))) :
    (Element.decodeWith pool value).Reads
      (written (fun x : ElementLayout => pool.RefersTo x.name [.utf8] ∧ okV x.value)
        ElementLayout.encode (ElementLayout.view pool)) := by
  refine ((ConstantPool.reads_decodeText _).seq fun name _ =>
    hv.map (Element.mk (pool.textAt name))).rebuild (fun z => ⟨z.1, z.2⟩) ?_ ?_
  · intro z hok
    exact ⟨hok, rfl, rfl⟩
  · intro x hok
    obtain ⟨name, v⟩ := x
    exact ⟨(name, v), hok, rfl⟩

namespace Annotation

theorem reads_decodeWith
    (hv : value.Reads (written okV ValueLayout.encode (ValueLayout.view pool))) :
    (decodeWith pool value).Reads
      (written (fun x : AnnotationLayout => pool.RefersTo x.type [.utf8] ∧
          x.elements.length < 65536 ∧
          ∀ e ∈ x.elements, pool.RefersTo e.name [.utf8] ∧ okV e.value)
        AnnotationLayout.encode (AnnotationLayout.view pool)) := by
  have hencode : ∀ x : AnnotationLayout,
      x.encode = Encoder.u2 x.type ++ Encoder.counted ElementLayout.encode x.elements := by
    intro x
    obtain ⟨type, elements⟩ := x
    rw [AnnotationLayout.encode, ElementLayout.encodeAll_eq]
    rfl
  have hview : ∀ x : AnnotationLayout,
      x.view pool = ⟨pool.textAt x.type, x.elements.map (ElementLayout.view pool)⟩ := by
    intro x
    obtain ⟨type, elements⟩ := x
    rw [AnnotationLayout.view, ElementLayout.viewAll_eq]
  refine ((ConstantPool.reads_decodeText _).seq fun type _ =>
    reads_counted_map (Element.reads_decodeWith hv) _
      (mk (pool.textAt type))).rebuild (fun z => ⟨z.1, z.2⟩) ?_ ?_
  · intro z hok
    exact ⟨hok, hencode ⟨z.1, z.2⟩, hview ⟨z.1, z.2⟩⟩
  · intro x hok
    obtain ⟨type, elements⟩ := x
    exact ⟨(type, elements), hok, rfl⟩

end Annotation

theorem ValueLayout.mark_literal (type : Primitive) (index : UInt16) :
    (literal type index).mark = type.letter := by
  cases type <;> rfl

/-- What a value with each mark is made of. -/
theorem ValueLayout.exists_of_mark {x : ValueLayout} {m : Char} : x.mark = m →
    match m with
    | 's' => ∃ index, string index = x
    | 'e' => ∃ type name, enumConstant type name = x
    | 'c' => ∃ index, classInfo index = x
    | '@' => ∃ content, nested content = x
    | '[' => ∃ values, array values = x
    | m => ∃ type index, type.letter = m ∧ literal type index = x := by
  rintro rfl
  cases x with
  | literal type index => cases type <;> exact ⟨_, index, rfl, rfl⟩
  | enumConstant type name => exact ⟨type, name, rfl⟩
  | string v | classInfo v | nested v | array v => exact ⟨v, rfl⟩

namespace ElementValue

theorem reads_literal (type : Primitive) :
    (do
      let index ← u2 "const_value_index"
      return .literal type (← ofResult (pool.primitive type index.toNat)) :
        Decoder ElementValue).Reads
      (written (fun index => pool.RefersTo index [type.constantTag]) Encoder.u2
        fun index => .literal type (pool.literalAt index)) := by
  refine ((reads_u2 _).andThen fun index _ =>
    Reads.resolve (ConstantPool.settles_primitive type index) fun _ =>
      reads_pure (ElementValue.literal type (pool.literalAt index))).rebuild id ?_ ?_
  · intro index h
    exact ⟨h.2.1, rfl, rfl⟩
  · intro index hindex
    exact ⟨index, ⟨trivial, hindex, trivial⟩, rfl⟩

theorem reads_enumConstant :
    (do
      let type ← u2 "type_name_index"
      let name ← u2 "const_name_index"
      let typeText ← ofResult (pool.utf8 type.toNat)
      return .enumConstant typeText (← ofResult (pool.utf8 name.toNat)) :
        Decoder ElementValue).Reads
      (written (fun z : UInt16 × UInt16 => pool.RefersTo z.1 [.utf8] ∧ pool.RefersTo z.2 [.utf8])
        (fun z => Encoder.u2 z.1 ++ Encoder.u2 z.2)
        fun z => .enumConstant (pool.textAt z.1) (pool.textAt z.2)) := by
  refine ((reads_u2 _).seq fun type _ => (reads_u2 _).seq fun name _ =>
    Reads.resolve (ConstantPool.settles_utf8 type) fun _ =>
      Reads.resolve (ConstantPool.settles_utf8 name) fun _ =>
        reads_pure (ElementValue.enumConstant (pool.textAt type) (pool.textAt name))).rebuild
          (fun z => (z.1, z.2.1)) ?_ ?_
  · intro z h
    obtain ⟨-, -, htype, hname, -⟩ := h
    refine ⟨⟨htype, hname⟩, ?_, rfl⟩
    exact congrArg (Encoder.u2 z.1 ++ ·) (List.append_nil (Encoder.u2 z.2.1)).symm
  · intro z h
    exact ⟨(z.1, z.2, ()), ⟨trivial, trivial, h.1, h.2, trivial⟩, rfl⟩

/-- The mark decides which layouts can follow. -/
theorem reads_decodeBody
    (hv : value.Reads (written okV ValueLayout.encode (ValueLayout.view pool))) (start : Nat)
    (tag : UInt8) :
    (decodeBody pool value start tag).Reads
      (written (fun x : ValueLayout => x.mark = Char.ofNat tag.toNat ∧ x.WellFormedWith pool okV)
        ValueLayout.body (ValueLayout.view pool)) := by
  unfold decodeBody
  generalize Char.ofNat tag.toNat = m
  split
  · refine ((ConstantPool.reads_decodeText _).map ElementValue.string).rebuild .string ?_ ?_
    · intro index hindex
      exact ⟨⟨rfl, hindex⟩, rfl, rfl⟩
    · intro x h
      obtain ⟨index, rfl⟩ := ValueLayout.exists_of_mark h.1
      exact ⟨index, h.2, rfl⟩
  · refine reads_enumConstant.rebuild (fun z => .enumConstant z.1 z.2) ?_ ?_
    · intro z hok
      exact ⟨⟨rfl, hok⟩, rfl, rfl⟩
    · intro x h
      obtain ⟨type, name, rfl⟩ := ValueLayout.exists_of_mark h.1
      exact ⟨(type, name), h.2, rfl⟩
  · refine ((ConstantPool.reads_decodeText _).map ElementValue.classInfo).rebuild
      .classInfo ?_ ?_
    · intro index hindex
      exact ⟨⟨rfl, hindex⟩, rfl, rfl⟩
    · intro x h
      obtain ⟨index, rfl⟩ := ValueLayout.exists_of_mark h.1
      exact ⟨index, h.2, rfl⟩
  · have hcontent := Annotation.reads_decodeWith hv
    refine (hcontent.map ElementValue.nested).rebuild .nested ?_ ?_
    · intro content hok
      exact ⟨⟨rfl, hok⟩, rfl, rfl⟩
    · intro x h
      obtain ⟨content, rfl⟩ := ValueLayout.exists_of_mark h.1
      exact ⟨content, h.2, rfl⟩
  · refine (reads_counted_map hv _ ElementValue.array).rebuild .array ?_ ?_
    · intro values hok
      refine ⟨⟨rfl, hok⟩, rfl, ?_⟩
      rw [ValueLayout.view, ValueLayout.viewAll_eq]
    · intro x h
      obtain ⟨values, rfl⟩ := ValueLayout.exists_of_mark h.1
      exact ⟨values, h.2, rfl⟩
  · rename_i hs he hc hat hbracket
    -- None of the other marks is left, so only literals are.
    have hliteral (x : ValueLayout) (h : x.mark = m) :
        ∃ type index, Primitive.ofLetter? (.scalar m) = some type ∧ .literal type index = x := by
      have hmade : ∃ type index, type.letter = m ∧ .literal type index = x := by
        simpa only [hs, he, hc, hat, hbracket] using ValueLayout.exists_of_mark h
      obtain ⟨type, index, rfl, hx⟩ := hmade
      exact ⟨type, index, Primitive.ofLetter?_letter type, hx⟩
    cases hletter : Primitive.ofLetter? (.scalar m) with
    | some type =>
        obtain ⟨⟨⟩⟩ := Primitive.ofLetter?_eq_some_iff.mp hletter
        refine (reads_literal type).rebuild (.literal type) ?_ ?_
        · intro index hindex
          exact ⟨⟨ValueLayout.mark_literal type index, hindex⟩, rfl, rfl⟩
        · intro x h
          obtain ⟨hmark, hok⟩ := h
          obtain ⟨type', index, hletter', rfl⟩ := hliteral x hmark
          obtain rfl := Option.some.inj (hletter'.symm.trans hletter)
          exact ⟨index, hok, rfl⟩
    | none =>
        refine reads_never (failAt_ne_ok _ _) ?_
        intro x h
        obtain ⟨hmark, -⟩ := h
        obtain ⟨type, -, hletter', -⟩ := hliteral x hmark
        cases hletter'.symm.trans hletter

/-- A mark is the character of the byte that is written for it, since it is below 256. -/
theorem mark_eq_iff (x : ValueLayout) (tag : UInt8) :
    x.mark = Char.ofNat tag.toNat ↔ UInt8.ofNat x.mark.toNat = tag := by
  have hmark : Char.ofNat (UInt8.ofNat x.mark.toNat).toNat = x.mark := by
    cases x with
    | literal type => cases type <;> rfl
    | _ => rfl
  have htag : (Char.ofNat tag.toNat).toNat = tag.toNat := by
    have := tag.toNat_lt
    rw [Char.ofNat, dif_pos (Or.inl (by omega))]
    rfl
  refine ⟨fun h => ?_, fun h => ?_⟩
  · rw [h, htag, UInt8.ofNat_toNat]
  · rw [← h, hmark]

/-- A reader of bounded depth reads the values that nest no deeper. -/
theorem reads_decodeWithin (pool : ConstantPool) (n : Nat) :
    (decodeWithin pool n).Reads
      (written (fun x : ValueLayout => x.WellFormed pool ∧ x.depth ≤ n) ValueLayout.encode
        (ValueLayout.view pool)) := by
  induction n with
  | zero =>
      refine reads_never (failHere_ne_ok _) ?_
      intro x h
      obtain ⟨-, hdepth⟩ := h
      cases x <;> simp [ValueLayout.depth] at hdepth
  | succ n ih =>
      refine (Reads.atOffset fun start => (reads_u1 "element_value tag").seq fun tag _ =>
        reads_decodeBody ih start tag).rebuild Prod.snd ?_ ?_
      · intro z h
        obtain ⟨tag, x⟩ := z
        obtain ⟨-, hmark, hok⟩ := h
        refine ⟨(x.wellFormedWith_iff pool n).mp hok, ?_, rfl⟩
        rw [x.encode_eq, Encoder.mark, (mark_eq_iff x tag).mp hmark]
      · intro x hok
        exact ⟨(.ofNat x.mark.toNat, x),
          ⟨trivial, (mark_eq_iff x _).mpr rfl, (x.wellFormedWith_iff pool n).mpr hok⟩, rfl⟩

end ElementValue

namespace Annotation

/-- Annotations of any depth are read: the bytes that are left are enough of a bound. -/
theorem reads_decode (pool : ConstantPool) :
    (decode pool).Reads
      (written (AnnotationLayout.WellFormed pool) AnnotationLayout.encode
        (AnnotationLayout.view pool)) := by
  have hbounded (n : Nat) :
      (decodeWith pool (ElementValue.decodeWithin pool n)).Reads
        (written (fun x : AnnotationLayout => x.WellFormed pool ∧ x.depth ≤ n)
          AnnotationLayout.encode (AnnotationLayout.view pool)) := by
    refine (reads_decodeWith (ElementValue.reads_decodeWithin pool n)).congr
      fun w a => ?_
    exact exists_congr fun x => and_congr_left fun _ => x.wellFormed_depth_iff pool n
  refine ⟨?_, ?_⟩
  · intro c w t a h ht
    obtain ⟨x, hok, rfl, rfl⟩ := h
    have hdepth : x.depth ≤ c.rest.length := by
      have := x.depth_le
      rw [ht, List.length_append]
      omega
    exact (hbounded c.rest.length).accepts ⟨x, ⟨hok, hdepth⟩, rfl, rfl⟩ ht
  · intro c c' a h
    -- Whatever the bound was, what has been read within it is a layout.
    obtain ⟨w, ⟨x, ⟨hok, -⟩, hw, ha⟩, hover⟩ := (hbounded c.rest.length).explains h
    exact ⟨w, ⟨x, hok, hw, ha⟩, hover⟩

end Annotation

end ClassFormat
