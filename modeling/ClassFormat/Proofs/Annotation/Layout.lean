/-
Annotations as bytes.

A layout of an annotation holds the indices of its names and constants where the
annotation itself holds texts and literals; otherwise the two are the same tree.
A value begins with a mark that says what kind of value follows, and every list
has its count in front.

How deep values nest counts from 1, for a value with none inside.  A level takes
at least the byte of its mark, so no layout is deeper than it is long.
-/
import ClassFormat.Proofs.ConstantPool.Resolution

namespace ClassFormat

mutual

/-- The value of an annotation element as it is written. -/
inductive ValueLayout where
  | literal (type : Primitive) (index : UInt16)
  | string (index : UInt16)
  | classInfo (index : UInt16)
  | enumConstant (type name : UInt16)
  | nested (content : AnnotationLayout)
  | array (values : List ValueLayout)

/-- An annotation as it is written. -/
structure AnnotationLayout where
  type : UInt16
  elements : List ElementLayout

/-- A named value of an annotation as it is written. -/
structure ElementLayout where
  name : UInt16
  value : ValueLayout

end

/-- The character that says of what kind a value is. -/
def ValueLayout.mark : ValueLayout → Char
  | .literal .byte _ => 'B'
  | .literal .char _ => 'C'
  | .literal .double _ => 'D'
  | .literal .float _ => 'F'
  | .literal .int _ => 'I'
  | .literal .long _ => 'J'
  | .literal .short _ => 'S'
  | .literal .boolean _ => 'Z'
  | .string _ => 's'
  | .classInfo _ => 'c'
  | .enumConstant .. => 'e'
  | .nested _ => '@'
  | .array _ => '['

/-- The byte of a mark. -/
def Encoder.mark (c : Char) : List UInt8 :=
  Encoder.u1 (.ofNat c.toNat)

mutual

/-- An annotation in bytes. -/
def AnnotationLayout.encode : AnnotationLayout → List UInt8
  | ⟨type, elements⟩ =>
    Encoder.u2 type ++ (Encoder.u2 (.ofNat elements.length) ++ ElementLayout.encodeAll elements)

/-- A value in bytes. -/
def ValueLayout.encode : ValueLayout → List UInt8
  | .literal type index =>
    Encoder.mark (ValueLayout.literal type index).mark ++ Encoder.u2 index
  | .string index => Encoder.mark 's' ++ Encoder.u2 index
  | .classInfo index => Encoder.mark 'c' ++ Encoder.u2 index
  | .enumConstant type name => Encoder.mark 'e' ++ (Encoder.u2 type ++ Encoder.u2 name)
  | .nested content => Encoder.mark '@' ++ content.encode
  | .array values =>
    Encoder.mark '[' ++ (Encoder.u2 (.ofNat values.length) ++ ValueLayout.encodeAll values)

/-- Named values in bytes. -/
def ElementLayout.encodeAll : List ElementLayout → List UInt8
  | [] => []
  | ⟨name, value⟩ :: rest =>
    (Encoder.u2 name ++ value.encode) ++ ElementLayout.encodeAll rest

/-- Values in bytes. -/
def ValueLayout.encodeAll : List ValueLayout → List UInt8
  | [] => []
  | value :: rest => value.encode ++ ValueLayout.encodeAll rest

end

mutual

/-- The annotation that a layout shows. -/
def AnnotationLayout.view (pool : ConstantPool) : AnnotationLayout → Annotation
  | ⟨type, elements⟩ => ⟨pool.textAt type, ElementLayout.viewAll pool elements⟩

/-- The value that a layout shows. -/
def ValueLayout.view (pool : ConstantPool) : ValueLayout → ElementValue
  | .literal type index => .literal type (pool.literalAt index)
  | .string index => .string (pool.textAt index)
  | .classInfo index => .classInfo (pool.textAt index)
  | .enumConstant type name => .enumConstant (pool.textAt type) (pool.textAt name)
  | .nested content => .nested (content.view pool)
  | .array values => .array (ValueLayout.viewAll pool values)

/-- The named values that layouts show. -/
def ElementLayout.viewAll (pool : ConstantPool) : List ElementLayout → List Element
  | [] => []
  | ⟨name, value⟩ :: rest =>
    ⟨pool.textAt name, value.view pool⟩ :: ElementLayout.viewAll pool rest

/-- The values that layouts show. -/
def ValueLayout.viewAll (pool : ConstantPool) : List ValueLayout → List ElementValue
  | [] => []
  | value :: rest => value.view pool :: ValueLayout.viewAll pool rest

end

mutual

/-- Every index leads to a constant of the right kind, and the counts fit their fields. -/
def AnnotationLayout.WellFormed (pool : ConstantPool) : AnnotationLayout → Prop
  | ⟨type, elements⟩ => pool.RefersTo type [.utf8] ∧ elements.length < 65536 ∧
    ElementLayout.WellFormedAll pool elements

/-- Every index leads to a constant of the right kind, and the counts fit their fields. -/
def ValueLayout.WellFormed (pool : ConstantPool) : ValueLayout → Prop
  | .literal type index => pool.RefersTo index [type.constantTag]
  | .string index | .classInfo index => pool.RefersTo index [.utf8]
  | .enumConstant type name => pool.RefersTo type [.utf8] ∧ pool.RefersTo name [.utf8]
  | .nested content => content.WellFormed pool
  | .array values => values.length < 65536 ∧ ValueLayout.WellFormedAll pool values

/-- All named values are well formed. -/
def ElementLayout.WellFormedAll (pool : ConstantPool) : List ElementLayout → Prop
  | [] => True
  | ⟨name, value⟩ :: rest => (pool.RefersTo name [.utf8] ∧ value.WellFormed pool) ∧
    ElementLayout.WellFormedAll pool rest

/-- All values are well formed. -/
def ValueLayout.WellFormedAll (pool : ConstantPool) : List ValueLayout → Prop
  | [] => True
  | value :: rest => value.WellFormed pool ∧ ValueLayout.WellFormedAll pool rest

end

mutual

/-- Whether an annotation is well formed. -/
def AnnotationLayout.decidableWellFormed (pool : ConstantPool) :
    (x : AnnotationLayout) → Decidable (x.WellFormed pool)
  | ⟨type, elements⟩ =>
    have := ElementLayout.decidableWellFormedAll pool elements
    inferInstanceAs (Decidable (pool.RefersTo type [.utf8] ∧ elements.length < 65536 ∧
      ElementLayout.WellFormedAll pool elements))

/-- Whether a value is well formed. -/
def ValueLayout.decidableWellFormed (pool : ConstantPool) :
    (x : ValueLayout) → Decidable (x.WellFormed pool)
  | .literal type index => inferInstanceAs (Decidable (pool.RefersTo index [type.constantTag]))
  | .string index | .classInfo index => inferInstanceAs (Decidable (pool.RefersTo index [.utf8]))
  | .enumConstant type name =>
    inferInstanceAs (Decidable (pool.RefersTo type [.utf8] ∧ pool.RefersTo name [.utf8]))
  | .nested content => content.decidableWellFormed pool
  | .array values =>
    have := ValueLayout.decidableWellFormedAll pool values
    inferInstanceAs (Decidable (values.length < 65536 ∧ ValueLayout.WellFormedAll pool values))

/-- Whether all named values are well formed. -/
def ElementLayout.decidableWellFormedAll (pool : ConstantPool) :
    (xs : List ElementLayout) → Decidable (ElementLayout.WellFormedAll pool xs)
  | [] => isTrue trivial
  | ⟨name, value⟩ :: rest =>
    have := value.decidableWellFormed pool
    have := ElementLayout.decidableWellFormedAll pool rest
    inferInstanceAs (Decidable ((pool.RefersTo name [.utf8] ∧ value.WellFormed pool) ∧
      ElementLayout.WellFormedAll pool rest))

/-- Whether all values are well formed. -/
def ValueLayout.decidableWellFormedAll (pool : ConstantPool) :
    (xs : List ValueLayout) → Decidable (ValueLayout.WellFormedAll pool xs)
  | [] => isTrue trivial
  | value :: rest =>
    have := value.decidableWellFormed pool
    have := ValueLayout.decidableWellFormedAll pool rest
    inferInstanceAs (Decidable (value.WellFormed pool ∧ ValueLayout.WellFormedAll pool rest))

end

instance (pool : ConstantPool) (x : AnnotationLayout) : Decidable (x.WellFormed pool) :=
  x.decidableWellFormed pool

mutual

/-- How deep values nest in an annotation. -/
def AnnotationLayout.depth : AnnotationLayout → Nat
  | ⟨_, elements⟩ => ElementLayout.depthAll elements

/-- How deep values nest in a value, itself included. -/
def ValueLayout.depth : ValueLayout → Nat
  | .literal .. | .string _ | .classInfo _ | .enumConstant .. => 1
  | .nested content => content.depth + 1
  | .array values => ValueLayout.depthAll values + 1

/-- How deep the deepest of the named values nests. -/
def ElementLayout.depthAll : List ElementLayout → Nat
  | [] => 0
  | ⟨_, value⟩ :: rest => max value.depth (ElementLayout.depthAll rest)

/-- How deep the deepest of the values nests. -/
def ValueLayout.depthAll : List ValueLayout → Nat
  | [] => 0
  | value :: rest => max value.depth (ValueLayout.depthAll rest)

end

/-! ### Lists of values are lists -/

namespace ElementLayout

/-- A named value in bytes. -/
def encode (x : ElementLayout) : List UInt8 :=
  Encoder.u2 x.name ++ x.value.encode

/-- The named value that a layout shows. -/
def view (pool : ConstantPool) (x : ElementLayout) : Element :=
  ⟨pool.textAt x.name, x.value.view pool⟩

/-- The name is a text and the value is well formed. -/
def WellFormed (pool : ConstantPool) (x : ElementLayout) : Prop :=
  pool.RefersTo x.name [.utf8] ∧ x.value.WellFormed pool

theorem encodeAll_eq (xs : List ElementLayout) : encodeAll xs = xs.flatMap encode := by
  induction xs with
  | nil => rfl
  | cons x xs ih =>
      obtain ⟨name, value⟩ := x
      rw [encodeAll, ih]
      rfl

theorem viewAll_eq (pool : ConstantPool) (xs : List ElementLayout) :
    viewAll pool xs = xs.map (view pool) := by
  induction xs with
  | nil => rfl
  | cons x xs ih =>
      obtain ⟨name, value⟩ := x
      rw [viewAll, ih]
      rfl

theorem wellFormedAll_iff (pool : ConstantPool) (xs : List ElementLayout) :
    WellFormedAll pool xs ↔ ∀ x ∈ xs, x.WellFormed pool := by
  induction xs with
  | nil => simp [WellFormedAll]
  | cons x xs ih =>
      obtain ⟨name, value⟩ := x
      rw [WellFormedAll, ih, List.forall_mem_cons]
      exact Iff.rfl

theorem depthAll_le_iff (n : Nat) (xs : List ElementLayout) :
    depthAll xs ≤ n ↔ ∀ x ∈ xs, x.value.depth ≤ n := by
  induction xs with
  | nil => simp [depthAll]
  | cons x xs ih =>
      obtain ⟨name, value⟩ := x
      rw [depthAll, Nat.max_le, ih, List.forall_mem_cons]

end ElementLayout

namespace ValueLayout

theorem encodeAll_eq (xs : List ValueLayout) : encodeAll xs = xs.flatMap encode := by
  induction xs with
  | nil => rfl
  | cons x xs ih =>
      rw [encodeAll, ih]
      rfl

theorem viewAll_eq (pool : ConstantPool) (xs : List ValueLayout) :
    viewAll pool xs = xs.map (view pool) := by
  induction xs with
  | nil => rfl
  | cons x xs ih =>
      rw [viewAll, ih]
      rfl

theorem wellFormedAll_iff (pool : ConstantPool) (xs : List ValueLayout) :
    WellFormedAll pool xs ↔ ∀ x ∈ xs, x.WellFormed pool := by
  induction xs with
  | nil => simp [WellFormedAll]
  | cons x xs ih => rw [WellFormedAll, ih, List.forall_mem_cons]

theorem depthAll_le_iff (n : Nat) (xs : List ValueLayout) :
    depthAll xs ≤ n ↔ ∀ x ∈ xs, x.depth ≤ n := by
  induction xs with
  | nil => simp [depthAll]
  | cons x xs ih => rw [depthAll, Nat.max_le, ih, List.forall_mem_cons]

end ValueLayout

/-! ### One level of a value -/

/-- A bound on the depth of an annotation is a bound for the value of each element. -/
theorem AnnotationLayout.wellFormed_depth_iff (pool : ConstantPool) (n : Nat)
    (x : AnnotationLayout) :
    (pool.RefersTo x.type [.utf8] ∧ x.elements.length < 65536 ∧
      ∀ e ∈ x.elements, pool.RefersTo e.name [.utf8] ∧ e.value.WellFormed pool ∧
        e.value.depth ≤ n) ↔ x.WellFormed pool ∧ x.depth ≤ n := by
  obtain ⟨type, elements⟩ := x
  unfold WellFormed depth
  rw [ElementLayout.wellFormedAll_iff, ElementLayout.depthAll_le_iff]
  refine ⟨?_, ?_⟩
  · intro h
    obtain ⟨htype, hlen, hall⟩ := h
    exact ⟨⟨htype, hlen, fun e he => ⟨(hall e he).1, (hall e he).2.1⟩⟩,
      fun e he => (hall e he).2.2⟩
  · intro h
    obtain ⟨⟨htype, hlen, hall⟩, hdepth⟩ := h
    exact ⟨htype, hlen, fun e he => ⟨(hall e he).1, (hall e he).2, hdepth e he⟩⟩

namespace ValueLayout

/-- The bytes of a value after its mark. -/
def body : ValueLayout → List UInt8
  | .literal _ index | .string index | .classInfo index => Encoder.u2 index
  | .enumConstant type name => Encoder.u2 type ++ Encoder.u2 name
  | .nested content => content.encode
  | .array values => Encoder.counted encode values

theorem encode_eq (x : ValueLayout) : x.encode = Encoder.mark x.mark ++ x.body := by
  cases x with
  | array values =>
      rw [encode, encodeAll_eq]
      rfl
  | _ => rfl

/-- The value is well formed if the condition stands for well-formed values inside it. -/
def WellFormedWith (pool : ConstantPool) (ok : ValueLayout → Prop) : ValueLayout → Prop
  | .literal type index => pool.RefersTo index [type.constantTag]
  | .string index | .classInfo index => pool.RefersTo index [.utf8]
  | .enumConstant type name => pool.RefersTo type [.utf8] ∧ pool.RefersTo name [.utf8]
  | .nested content => pool.RefersTo content.type [.utf8] ∧ content.elements.length < 65536 ∧
    ∀ e ∈ content.elements, pool.RefersTo e.name [.utf8] ∧ ok e.value
  | .array values => values.length < 65536 ∧ ∀ v ∈ values, ok v

/-- Values of bounded depth hold values of a depth that is one less. -/
theorem wellFormedWith_iff (pool : ConstantPool) (n : Nat) (x : ValueLayout) :
    x.WellFormedWith pool (fun v => v.WellFormed pool ∧ v.depth ≤ n) ↔
      x.WellFormed pool ∧ x.depth ≤ n + 1 := by
  cases x with
  | literal | string | classInfo | enumConstant =>
      exact ⟨fun h => ⟨h, Nat.le_add_left 1 n⟩, fun h => h.1⟩
  | nested content =>
      rw [WellFormedWith, WellFormed, depth, Nat.add_le_add_iff_right,
        content.wellFormed_depth_iff pool n]
  | array values =>
      rw [WellFormedWith, WellFormed, depth, Nat.add_le_add_iff_right, wellFormedAll_iff,
        depthAll_le_iff]
      refine ⟨?_, ?_⟩
      · intro h
        obtain ⟨hlen, hall⟩ := h
        exact ⟨⟨hlen, fun v hv => (hall v hv).1⟩, fun v hv => (hall v hv).2⟩
      · intro h
        obtain ⟨⟨hlen, hall⟩, hdepth⟩ := h
        exact ⟨hlen, fun v hv => ⟨hall v hv, hdepth v hv⟩⟩

end ValueLayout

/-! ### No layout is deeper than it is long -/

@[simp] theorem Encoder.length_mark (c : Char) : (Encoder.mark c).length = 1 :=
  Encoder.length_u1 _

mutual

theorem AnnotationLayout.depth_le (x : AnnotationLayout) : x.depth ≤ x.encode.length := by
  obtain ⟨type, elements⟩ := x
  have := ElementLayout.depthAll_le elements
  simp only [AnnotationLayout.depth, AnnotationLayout.encode, List.length_append]
  omega

theorem ValueLayout.depth_le (x : ValueLayout) : x.depth ≤ x.encode.length := by
  match x with
  | .literal .. | .string _ | .classInfo _ | .enumConstant .. =>
    simp only [ValueLayout.depth, ValueLayout.encode, List.length_append, Encoder.length_mark]
    omega
  | .nested content =>
    have := content.depth_le
    simp only [ValueLayout.depth, ValueLayout.encode, List.length_append, Encoder.length_mark]
    omega
  | .array values =>
    have := ValueLayout.depthAll_le values
    simp only [ValueLayout.depth, ValueLayout.encode, List.length_append, Encoder.length_mark]
    omega

theorem ElementLayout.depthAll_le (xs : List ElementLayout) :
    ElementLayout.depthAll xs ≤ (ElementLayout.encodeAll xs).length := by
  match xs with
  | [] => exact Nat.le_refl 0
  | ⟨name, value⟩ :: rest =>
    have := value.depth_le
    have := ElementLayout.depthAll_le rest
    simp only [ElementLayout.depthAll, ElementLayout.encodeAll, List.length_append]
    omega

theorem ValueLayout.depthAll_le (xs : List ValueLayout) :
    ValueLayout.depthAll xs ≤ (ValueLayout.encodeAll xs).length := by
  match xs with
  | [] => exact Nat.le_refl 0
  | value :: rest =>
    have := value.depth_le
    have := ValueLayout.depthAll_le rest
    simp only [ValueLayout.depthAll, ValueLayout.encodeAll, List.length_append]
    omega

end

end ClassFormat
