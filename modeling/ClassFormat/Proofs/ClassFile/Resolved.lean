/-
Classes whose indices are resolved.

A class that has been read still holds indices, and looks up what they stand for when it
is asked.  `Resolved` says that every index that a query may look up leads to a constant
of the kind that the query needs, and that every text that a query may read as a
descriptor or a signature is one of the right form.  Reading a class establishes this;
the queries rely on nothing else.
-/
import ClassFormat.Proofs.ClassFile.RoundTrip

namespace ClassFormat

variable {pool : ConstantPool}

/-- The index leads to a text that the reader for the form accepts. -/
def ConstantPool.RefersToForm (pool : ConstantPool) (index : UInt16) (form : SignatureForm) :
    Prop :=
  ∃ t, pool.utf8 index.toNat = .ok t ∧ form.Accepts t

theorem ConstantPool.RefersTo.toForm {index : UInt16} {form : SignatureForm}
    (h : pool.RefersTo index [.utf8]) (hform : form.Accepts (pool.textAt index)) :
    pool.RefersToForm index form :=
  ⟨_, (settles_utf8 index _).mpr ⟨h, rfl⟩, hform⟩

/-- What the payload refers to is there; a signature is one of the given form. -/
def Payload.Resolved (pool : ConstantPool) (form : SignatureForm) : Payload → Prop
  | constantValue index => pool.RefersTo index Tag.loadable
  | signature index => pool.RefersToForm index form
  | sourceFile index => pool.RefersTo index [.utf8]
  | exceptions indices => ∀ i ∈ indices, pool.RefersTo i [.classRef]
  | innerClasses _ | methodParameters _ | code _ | annotations _ | uninterpreted => True

/-- What the attributes refer to is there. -/
def AttributeSet.Resolved (pool : ConstantPool) (form : SignatureForm) (s : AttributeSet) : Prop :=
  ∀ a ∈ s.stored, a.payload.Resolved pool form

/-- The name and the descriptor are there, and so is what the attributes refer to. -/
structure Member.Resolved (pool : ConstantPool) (owner : OwnerKind) (form : SignatureForm)
    (m : Member) : Prop where
  name : pool.RefersTo m.nameIndex [.utf8]
  descriptor : pool.RefersToForm m.descriptorIndex form
  attributes : m.attributes.Resolved pool owner.signatureForm

/-- Everything that the class, its members and their attributes refer to is there. -/
structure ClassFile.Resolved (c : ClassFile) : Prop where
  linked : c.pool.Linked
  thisClass : c.pool.RefersTo c.thisClass [.classRef]
  superclass : c.pool.MayReferTo c.superclass [.classRef]
  interfaces : ∀ i ∈ c.interfaces, c.pool.RefersTo i [.classRef]
  fields : ∀ f ∈ c.fields, f.toMember.Resolved c.pool .ofField .fieldDescriptor
  methods : ∀ m ∈ c.methods, m.toMember.Resolved c.pool .ofMethod .methodDescriptor
  attributes : c.attributes.Resolved c.pool .classSignature

/-! ### What is read is resolved -/

variable {settle : Annotation → Annotation}

theorem PayloadLayout.WellFormed.resolved {form : SignatureForm} {x : PayloadLayout}
    (h : x.WellFormed pool form.Accepts) : (x.view pool settle).Resolved pool form := by
  cases x with
  | constantValue index => exact h
  | signature index => exact h.1.toForm h.2
  | sourceFile index => exact h
  | exceptions indices => exact h.2
  | _ => trivial

theorem AttributesLayout.WellFormed.resolved {owner : OwnerKind} {xs : AttributesLayout}
    (h : AttributesLayout.WellFormed pool SignatureForm.Accepts owner xs) :
    (AttributesLayout.view pool settle xs).Resolved pool owner.signatureForm := by
  intro a ha
  obtain ⟨x, hx, rfl⟩ := List.mem_map.mp ha
  exact (h.each x (List.mem_of_mem_filter hx)).payload.content.resolved

theorem MemberLayout.WellFormed.resolved {owner : OwnerKind} {form : SignatureForm}
    {x : MemberLayout} (h : x.WellFormed pool SignatureForm.Accepts owner form) :
    (x.view pool settle).Resolved pool owner form :=
  ⟨h.name, h.descriptor.toForm h.described, h.attributes.resolved⟩

theorem ClassLayout.WellFormed.resolved {policy : ReadPolicy} {x : ClassLayout}
    (h : x.WellFormed policy SignatureForm.Accepts) : (x.view settle).Resolved := by
  refine ⟨h.constants.linked, h.thisClass, h.superclass, h.interfaces, ?_, ?_,
    h.attributes.resolved⟩
  · intro f hf
    obtain ⟨m, hm, rfl⟩ := List.mem_map.mp hf
    exact (h.fields m hm).resolved
  · intro f hf
    obtain ⟨m, hm, rfl⟩ := List.mem_map.mp hf
    exact (h.methods m hm).resolved

theorem ClassFile.ofBytes_resolved {policy : ReadPolicy} {bytes : List UInt8} {c : ClassFile}
    (h : ofBytes policy bytes = .ok c) : c.Resolved := by
  obtain ⟨x, t, hok, -, -, rfl⟩ := ofBytes_ok_iff_layout.mp h
  exact hok.resolved

end ClassFormat
