/-
Class files as bytes.

The layout of a class holds everything that its file says, with indices where the file
has them.  The counts and lengths between the parts are not in it, since they follow
from the lists that they belong to, and neither is the magic number.

The conditions on a layout leave two things open: which versions are accepted, and
which texts pass for descriptors and signatures.  The first is up to the policy of the
reader.  For the second there are the texts that the readers accept and the texts of
the grammars, and it is a theorem that the former are among the latter.
-/
import ClassFormat.ClassFile.Basic
import ClassFormat.Proofs.Attribute.Layout
import ClassFormat.Proofs.ConstantPool.Layout

namespace ClassFormat

/-- A field or a method as it is written. -/
structure MemberLayout where
  accessFlags : UInt16
  nameIndex : UInt16
  descriptorIndex : UInt16
  attributes : AttributesLayout

namespace MemberLayout

/-- A member in bytes. -/
def encode (x : MemberLayout) : List UInt8 :=
  Encoder.u2 x.accessFlags ++ (Encoder.u2 x.nameIndex ++ (Encoder.u2 x.descriptorIndex ++
    AttributesLayout.encode x.attributes))

/-- The member that a layout shows. -/
def view (pool : ConstantPool) (settle : Annotation → Annotation) (x : MemberLayout) :
    Member where
  accessFlags := x.accessFlags
  nameIndex := x.nameIndex
  descriptorIndex := x.descriptorIndex
  attributes := AttributesLayout.view pool settle x.attributes

/-- The name is a text, the descriptor is one of the right form, and so are the attributes. -/
structure WellFormed (pool : ConstantPool) (language : SignatureForm → Text → Prop)
    (owner : OwnerKind) (form : SignatureForm) (x : MemberLayout) : Prop where
  name : pool.RefersTo x.nameIndex [.utf8]
  descriptor : pool.RefersTo x.descriptorIndex [.utf8]
  described : language form (pool.textAt x.descriptorIndex)
  attributes : AttributesLayout.WellFormed pool language owner x.attributes

instance (pool : ConstantPool) (language : SignatureForm → Text → Prop)
    [∀ form, DecidablePred (language form)] (owner : OwnerKind) (form : SignatureForm)
    (x : MemberLayout) : Decidable (x.WellFormed pool language owner form) :=
  decidable_of_iff (pool.RefersTo x.nameIndex [.utf8] ∧ pool.RefersTo x.descriptorIndex [.utf8] ∧
      language form (pool.textAt x.descriptorIndex) ∧
      AttributesLayout.WellFormed pool language owner x.attributes)
    ⟨fun ⟨h₁, h₂, h₃, h₄⟩ => ⟨h₁, h₂, h₃, h₄⟩,
      fun h => ⟨h.name, h.descriptor, h.described, h.attributes⟩⟩

end MemberLayout

/-- A class as it is written. -/
structure ClassLayout where
  minor : UInt16
  major : UInt16
  constants : PoolLayout
  accessFlags : UInt16
  thisClass : UInt16
  superclass : UInt16
  interfaces : List UInt16
  fields : List MemberLayout
  methods : List MemberLayout
  attributes : AttributesLayout

namespace ClassLayout

/-- The constant pool that the class shows. -/
def pool (x : ClassLayout) : ConstantPool :=
  PoolLayout.view x.constants

/-- The class in bytes. -/
def encode (x : ClassLayout) : List UInt8 :=
  (Encoder.u4 0xCAFEBABE ++ (Encoder.u2 x.minor ++ Encoder.u2 x.major)) ++
    (PoolLayout.encode x.constants ++
      (Encoder.u2 x.accessFlags ++ (Encoder.u2 x.thisClass ++ (Encoder.u2 x.superclass ++
        (Encoder.counted Encoder.u2 x.interfaces ++
          (Encoder.counted MemberLayout.encode x.fields ++
            (Encoder.counted MemberLayout.encode x.methods ++
              AttributesLayout.encode x.attributes)))))))

/--
What is irregular about the class: it has no superclass, and is neither the root class
nor a module, which the highest of its flags would say.
-/
def anomalies (x : ClassLayout) : List Anomaly :=
  if x.superclass = 0 ∧ x.pool.classNameAt x.thisClass ≠ "java/lang/Object" ∧
      x.accessFlags.toNat.testBit 15 = false then
    [.noSuperclass (x.pool.classNameAt x.thisClass)]
  else []

/-- The class that a layout shows. -/
def view (settle : Annotation → Annotation) (x : ClassLayout) : ClassFile where
  pool := x.pool
  accessFlags := x.accessFlags
  thisClass := x.thisClass
  superclass := x.superclass
  anomalies := x.anomalies
  interfaces := x.interfaces
  fields := x.fields.map fun m => ⟨m.view x.pool settle⟩
  methods := x.methods.map fun m => ⟨m.view x.pool settle⟩
  attributes := AttributesLayout.view x.pool settle x.attributes

/--
All conditions of the format: the version is one of the policy, the pool is well formed,
every index leads to a constant of the right kind, the counts fit their fields, and
descriptors and signatures are texts of the given language.
-/
structure WellFormed (policy : ReadPolicy) (language : SignatureForm → Text → Prop)
    (x : ClassLayout) : Prop where
  version : policy.lowestMajor ≤ x.major.toNat ∧ x.major.toNat ≤ policy.highestMajor
  constants : PoolLayout.WellFormed x.constants
  thisClass : x.pool.RefersTo x.thisClass [.classRef]
  superclass : x.pool.MayReferTo x.superclass [.classRef]
  interfaceCount : x.interfaces.length < 65536
  interfaces : ∀ i ∈ x.interfaces, x.pool.RefersTo i [.classRef]
  fieldCount : x.fields.length < 65536
  fields : ∀ m ∈ x.fields, m.WellFormed x.pool language .ofField .fieldDescriptor
  methodCount : x.methods.length < 65536
  methods : ∀ m ∈ x.methods, m.WellFormed x.pool language .ofMethod .methodDescriptor
  attributes : AttributesLayout.WellFormed x.pool language .ofClass x.attributes

instance (policy : ReadPolicy) (language : SignatureForm → Text → Prop)
    [∀ form, DecidablePred (language form)] (x : ClassLayout) :
    Decidable (x.WellFormed policy language) :=
  have := List.decidableBAll (fun i => x.pool.RefersTo i [.classRef]) x.interfaces
  decidable_of_iff ((policy.lowestMajor ≤ x.major.toNat ∧ x.major.toNat ≤ policy.highestMajor) ∧
      PoolLayout.WellFormed x.constants ∧ x.pool.RefersTo x.thisClass [.classRef] ∧
      x.pool.MayReferTo x.superclass [.classRef] ∧ x.interfaces.length < 65536 ∧
      (∀ i ∈ x.interfaces, x.pool.RefersTo i [.classRef]) ∧ x.fields.length < 65536 ∧
      (∀ m ∈ x.fields, m.WellFormed x.pool language .ofField .fieldDescriptor) ∧
      x.methods.length < 65536 ∧
      (∀ m ∈ x.methods, m.WellFormed x.pool language .ofMethod .methodDescriptor) ∧
      AttributesLayout.WellFormed x.pool language .ofClass x.attributes)
    ⟨fun ⟨h₁, h₂, h₃, h₄, h₅, h₆, h₇, h₈, h₉, h₁₀, h₁₁⟩ =>
        ⟨h₁, h₂, h₃, h₄, h₅, h₆, h₇, h₈, h₉, h₁₀, h₁₁⟩,
      fun h => ⟨h.version, h.constants, h.thisClass, h.superclass, h.interfaceCount, h.interfaces,
        h.fieldCount, h.fields, h.methodCount, h.methods, h.attributes⟩⟩

/-- The layouts of all annotations of the class and its members. -/
def annotationLayouts (x : ClassLayout) : List AnnotationLayout :=
  (x.fields ++ x.methods).flatMap (fun m => m.attributes.annotationLayouts) ++
    x.attributes.annotationLayouts

end ClassLayout

end ClassFormat
