/-
Well-formed types.

Much of what no text can say is left out by the shape of the types already: an array
holds no array, an argument that is left open has no type, and `void` is nothing but a
result.  What remains is about names, about places where a primitive type may not stand,
and about what a type parameter has at the least.

A descriptor is a well-formed type without generics, so `IsPlain` says what to leave
out.  `SignatureForm.WellFormed` puts the conditions together for each form of text.

`WellFormedWith` looks at one level of a type and leaves the type arguments to a
condition.  It is what a reader needs that is given a reader for type arguments.
-/
import ClassFormat.Signature.Grammar
import ClassFormat.Signature.Printer

namespace ClassFormat

/-- A name is not empty, and no code point in it means something by itself. -/
def Text.IsName (n : Text) : Prop :=
  n ≠ [] ∧ ∀ p ∈ n, p ∉ ['.', ';', '[', '/', '<', '>', ':'].map CodePoint.scalar

instance : DecidablePred Text.IsName := fun n =>
  inferInstanceAs (Decidable (n ≠ [] ∧ ∀ p ∈ n, _))

/-! ### All levels -/

mutual

/-- All names in the type are names, and the type arguments are well formed. -/
def ElementType.WellFormed : ElementType → Prop
  | .primitive _ => True
  | .variable n => n.IsName
  | .object c => c.WellFormed

/-- The element type is well formed. -/
def JavaType.WellFormed : JavaType → Prop
  | ⟨e, _⟩ => e.WellFormed

/-- All names of the class type are names, and the type arguments are well formed. -/
def ClassType.WellFormed : ClassType → Prop
  | ⟨package, outer, inner⟩ =>
    (∀ n ∈ package, n.IsName) ∧ outer.WellFormed ∧ ClassSegment.WellFormedAll inner

/-- The name is one, and the type arguments are well formed. -/
def ClassSegment.WellFormed : ClassSegment → Prop
  | ⟨name, arguments⟩ => name.IsName ∧ TypeArgument.WellFormedAll arguments

/-- An argument that names a type names a well-formed one that is not primitive. -/
def TypeArgument.WellFormed : TypeArgument → Prop
  | .any => True
  | .bounded _ t => t.isReference = true ∧ t.WellFormed

/-- All segments are well formed. -/
def ClassSegment.WellFormedAll : List ClassSegment → Prop
  | [] => True
  | s :: rest => s.WellFormed ∧ ClassSegment.WellFormedAll rest

/-- All type arguments are well formed. -/
def TypeArgument.WellFormedAll : List TypeArgument → Prop
  | [] => True
  | a :: rest => a.WellFormed ∧ TypeArgument.WellFormedAll rest

end

mutual

/-- Whether an element type is well formed. -/
def ElementType.decidableWellFormed : (e : ElementType) → Decidable e.WellFormed
  | .primitive _ => isTrue trivial
  | .variable n => inferInstanceAs (Decidable n.IsName)
  | .object c => c.decidableWellFormed

/-- Whether a type is well formed. -/
def JavaType.decidableWellFormed : (t : JavaType) → Decidable t.WellFormed
  | ⟨e, _⟩ => e.decidableWellFormed

/-- Whether a class type is well formed. -/
def ClassType.decidableWellFormed : (c : ClassType) → Decidable c.WellFormed
  | ⟨package, outer, inner⟩ =>
    have := outer.decidableWellFormed
    have := ClassSegment.decidableWellFormedAll inner
    inferInstanceAs (Decidable ((∀ n ∈ package, n.IsName) ∧ outer.WellFormed ∧
      ClassSegment.WellFormedAll inner))

/-- Whether a segment is well formed. -/
def ClassSegment.decidableWellFormed : (s : ClassSegment) → Decidable s.WellFormed
  | ⟨name, arguments⟩ =>
    have := TypeArgument.decidableWellFormedAll arguments
    inferInstanceAs (Decidable (name.IsName ∧ TypeArgument.WellFormedAll arguments))

/-- Whether a type argument is well formed. -/
def TypeArgument.decidableWellFormed : (a : TypeArgument) → Decidable a.WellFormed
  | .any => isTrue trivial
  | .bounded _ t =>
    have := t.decidableWellFormed
    inferInstanceAs (Decidable (t.isReference = true ∧ t.WellFormed))

/-- Whether all segments are well formed. -/
def ClassSegment.decidableWellFormedAll :
    (segments : List ClassSegment) → Decidable (ClassSegment.WellFormedAll segments)
  | [] => isTrue trivial
  | s :: rest =>
    have := s.decidableWellFormed
    have := ClassSegment.decidableWellFormedAll rest
    inferInstanceAs (Decidable (s.WellFormed ∧ ClassSegment.WellFormedAll rest))

/-- Whether all type arguments are well formed. -/
def TypeArgument.decidableWellFormedAll :
    (arguments : List TypeArgument) → Decidable (TypeArgument.WellFormedAll arguments)
  | [] => isTrue trivial
  | a :: rest =>
    have := a.decidableWellFormed
    have := TypeArgument.decidableWellFormedAll rest
    inferInstanceAs (Decidable (a.WellFormed ∧ TypeArgument.WellFormedAll rest))

end

instance : DecidablePred JavaType.WellFormed := JavaType.decidableWellFormed

instance : DecidablePred ClassType.WellFormed := ClassType.decidableWellFormed

/-! ### What stands around types -/

/-- The value, if there is one, has a well-formed type. -/
def ReturnType.WellFormed : ReturnType → Prop
  | void => True
  | value t => t.WellFormed

/-- A type parameter has a name and at least one bound, and no bound is primitive. -/
structure TypeParameter.WellFormed (p : TypeParameter) : Prop where
  name : p.name.IsName
  bounded : p.bounds ≠ []
  bounds : ∀ b ∈ p.bounds, b.isReference = true ∧ b.WellFormed

/-- What can be thrown is a class or a type variable. -/
structure JavaType.Throwable (t : JavaType) : Prop where
  single : t.dimensions = 0
  reference : t.isReference = true
  wellFormed : t.WellFormed

/-- All types of a method are well formed, and what it throws can be thrown. -/
structure MethodType.WellFormed (m : MethodType) : Prop where
  typeParameters : ∀ p ∈ m.typeParameters, p.WellFormed
  parameters : ∀ t ∈ m.parameters, t.WellFormed
  result : m.result.WellFormed
  throws : ∀ t ∈ m.throws, t.Throwable

/-- The type parameters and all class types are well formed. -/
structure ClassSignature.WellFormed (c : ClassSignature) : Prop where
  typeParameters : ∀ p ∈ c.typeParameters, p.WellFormed
  superclass : c.superclass.WellFormed
  interfaces : ∀ i ∈ c.interfaces, i.WellFormed

/-! ### Types without generics -/

/-- A class type without type arguments and without nested classes. -/
def ClassType.IsPlain (c : ClassType) : Prop :=
  c.outer.arguments = [] ∧ c.inner = []

/-- The type is no variable, and a class type is plain. -/
def ElementType.IsPlain : ElementType → Prop
  | .primitive _ => True
  | .variable _ => False
  | .object c => c.IsPlain

/-- The element type is plain. -/
def JavaType.IsPlain (t : JavaType) : Prop :=
  t.element.IsPlain

/-- The value, if there is one, has a plain type. -/
def ReturnType.IsPlain : ReturnType → Prop
  | void => True
  | value t => t.IsPlain

/-- The method has parameters and a result only, and their types are plain. -/
structure MethodType.IsPlain (m : MethodType) : Prop where
  typeParameters : m.typeParameters = []
  parameters : ∀ t ∈ m.parameters, t.IsPlain
  result : m.result.IsPlain
  throws : m.throws = []

instance : DecidablePred ReturnType.WellFormed := by
  intro r
  cases r <;> unfold ReturnType.WellFormed <;> infer_instance

instance : DecidablePred TypeParameter.WellFormed := fun p =>
  decidable_of_iff (p.name.IsName ∧ p.bounds ≠ [] ∧
      ∀ b ∈ p.bounds, b.isReference = true ∧ b.WellFormed)
    ⟨fun ⟨h₁, h₂, h₃⟩ => ⟨h₁, h₂, h₃⟩, fun h => ⟨h.name, h.bounded, h.bounds⟩⟩

instance : DecidablePred JavaType.Throwable := fun t =>
  decidable_of_iff (t.dimensions = 0 ∧ t.isReference = true ∧ t.WellFormed)
    ⟨fun ⟨h₁, h₂, h₃⟩ => ⟨h₁, h₂, h₃⟩, fun h => ⟨h.single, h.reference, h.wellFormed⟩⟩

instance : DecidablePred MethodType.WellFormed := fun m =>
  decidable_of_iff ((∀ p ∈ m.typeParameters, p.WellFormed) ∧ (∀ t ∈ m.parameters, t.WellFormed) ∧
      m.result.WellFormed ∧ ∀ t ∈ m.throws, t.Throwable)
    ⟨fun ⟨h₁, h₂, h₃, h₄⟩ => ⟨h₁, h₂, h₃, h₄⟩,
      fun h => ⟨h.typeParameters, h.parameters, h.result, h.throws⟩⟩

instance : DecidablePred ClassSignature.WellFormed := fun c =>
  decidable_of_iff ((∀ p ∈ c.typeParameters, p.WellFormed) ∧ c.superclass.WellFormed ∧
      ∀ i ∈ c.interfaces, i.WellFormed)
    ⟨fun ⟨h₁, h₂, h₃⟩ => ⟨h₁, h₂, h₃⟩, fun h => ⟨h.typeParameters, h.superclass, h.interfaces⟩⟩

/-! ### One level

The condition `ok` stands for the type arguments of a type.
-/

section Level

variable (ok : TypeArgument → Prop)

/-- The name is one, and the type arguments meet the condition. -/
def ClassSegment.WellFormedWith (s : ClassSegment) : Prop :=
  s.name.IsName ∧ ∀ a ∈ s.arguments, ok a

/-- All names are names, and the type arguments meet the condition. -/
structure ClassType.WellFormedWith (c : ClassType) : Prop where
  package : ∀ n ∈ c.package, n.IsName
  outer : c.outer.WellFormedWith ok
  inner : ∀ s ∈ c.inner, s.WellFormedWith ok

/-- All names are names, and the type arguments meet the condition. -/
def ElementType.WellFormedWith : ElementType → Prop
  | .primitive _ => True
  | .variable n => n.IsName
  | .object c => c.WellFormedWith ok

/-- An argument that names a type names one that is not primitive, and fit for its place. -/
def TypeArgument.WellFormedWith : TypeArgument → Prop
  | .any => True
  | .bounded _ t => t.isReference = true ∧ t.element.WellFormedWith ok

end Level

theorem TypeArgument.wellFormedAll_iff (arguments : List TypeArgument) :
    WellFormedAll arguments ↔ ∀ a ∈ arguments, a.WellFormed := by
  induction arguments with
  | nil => simp [WellFormedAll]
  | cons a rest ih => rw [WellFormedAll, ih, List.forall_mem_cons]

theorem ClassSegment.wellFormedAll_iff (segments : List ClassSegment) :
    WellFormedAll segments ↔ ∀ s ∈ segments, s.WellFormed := by
  induction segments with
  | nil => simp [WellFormedAll]
  | cons s rest ih => rw [WellFormedAll, ih, List.forall_mem_cons]

theorem ClassSegment.wellFormed_iff (s : ClassSegment) :
    s.WellFormed ↔ s.WellFormedWith TypeArgument.WellFormed := by
  obtain ⟨name, arguments⟩ := s
  rw [WellFormed, WellFormedWith, TypeArgument.wellFormedAll_iff]

theorem ClassType.wellFormed_iff (c : ClassType) :
    c.WellFormed ↔ c.WellFormedWith TypeArgument.WellFormed := by
  obtain ⟨package, outer, inner⟩ := c
  rw [WellFormed, ClassSegment.wellFormedAll_iff, outer.wellFormed_iff]
  have hinner : (∀ s ∈ inner, s.WellFormed) ↔
      ∀ s ∈ inner, s.WellFormedWith TypeArgument.WellFormed :=
    forall₂_congr fun s _ => s.wellFormed_iff
  rw [hinner]
  exact ⟨fun ⟨h₁, h₂, h₃⟩ => ⟨h₁, h₂, h₃⟩, fun h => ⟨h.package, h.outer, h.inner⟩⟩

theorem JavaType.wellFormed_iff (t : JavaType) :
    t.WellFormed ↔ t.element.WellFormedWith TypeArgument.WellFormed := by
  obtain ⟨e, n⟩ := t
  cases e with
  | object c => exact c.wellFormed_iff
  | _ => exact Iff.rfl

theorem TypeArgument.wellFormed_iff (a : TypeArgument) :
    a.WellFormed ↔ a.WellFormedWith WellFormed := by
  cases a with
  | any => exact Iff.rfl
  | bounded v t => exact and_congr_right fun _ => t.wellFormed_iff

/-! ### Forms of text

Each form has its own kind of tree, so that what holds of all forms is said once.
-/

namespace SignatureForm

/-- What a text of the form describes. -/
def Tree : SignatureForm → Type
  | fieldDescriptor | fieldSignature => JavaType
  | methodDescriptor | methodSignature => MethodType
  | classSignature => ClassSignature

/-- The tree that a text describes. -/
def parse : (form : SignatureForm) → Text → Except Fault form.Tree
  | fieldDescriptor => readFieldDescriptor
  | methodDescriptor => readMethodDescriptor
  | classSignature => readClassSignature
  | methodSignature => readMethodSignature
  | fieldSignature => readFieldSignature

/-- The tree in the notation of class files. -/
def print : (form : SignatureForm) → form.Tree → Text
  | fieldDescriptor | fieldSignature => JavaType.print
  | methodDescriptor | methodSignature => MethodType.print
  | classSignature => ClassSignature.print

/--
The tree is well formed and one of the form: descriptors are without generics, and a
field has a signature only if its type is not primitive.
-/
def WellFormed : (form : SignatureForm) → form.Tree → Prop
  | fieldDescriptor => fun t : JavaType => t.WellFormed ∧ t.IsPlain
  | methodDescriptor => fun m : MethodType => m.WellFormed ∧ m.IsPlain
  | classSignature => ClassSignature.WellFormed
  | methodSignature => MethodType.WellFormed
  | fieldSignature => fun t : JavaType => t.isReference = true ∧ t.WellFormed

end SignatureForm

end ClassFormat
