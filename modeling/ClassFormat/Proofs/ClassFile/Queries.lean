/-
Queries on a class that has been read.

Bad data is found while a class is read and not when it is asked something.  `Answers`
lists the queries on a class, its members and their attributes, and says that each gives
a value.  What depends on a type alone, its names and its erasure, cannot fail and is not
listed; neither are the flags, the tables of nested classes and of line numbers, the
annotations and the method bodies, which hold no index any more.
-/
import ClassFormat.ClassFile.Query
import ClassFormat.Proofs.ClassFile.Resolved

namespace ClassFormat

variable {pool : ConstantPool} {form : SignatureForm}

/-! ### The queries -/

/-- No query on the payload of an attribute fails. -/
structure Payload.Answers (pool : ConstantPool) (p : Payload) : Prop where
  constantValue : ∀ i, p.constantValue? = some i → Succeeds (pool.literal i.toNat)
  signature : ∀ i, p.signature? = some i → Succeeds (pool.utf8 i.toNat)
  sourceFile : ∀ i, p.sourceFile? = some i → Succeeds (pool.utf8 i.toNat)
  exceptions : ∀ is, p.exceptions? = some is →
    Succeeds (is.mapM fun i => pool.className i.toNat)

/-- No query that all members share fails. -/
structure Member.Answers (pool : ConstantPool) (m : Member) : Prop where
  name : Succeeds (m.name pool)
  descriptor : Succeeds (m.descriptor pool)
  signature : Succeeds (m.signature pool)
  summary : ∀ title, Succeeds (m.summary title pool)
  attributes : ∀ a ∈ m.attributes.stored, a.payload.Answers pool

/-- No query on the field fails. -/
structure Field.Answers (pool : ConstantPool) (f : Field) : Prop extends
    Member.Answers pool f.toMember where
  type : Succeeds (f.type pool)
  constantValue : Succeeds (f.constantValue pool)

/-- No query on the method fails, and it can be displayed in the class in either form. -/
structure Method.Answers (c : ClassFile) (m : Method) : Prop extends
    Member.Answers c.pool m.toMember where
  type : Succeeds (m.type c.pool)
  parameterNames : Succeeds (m.parameterNames c.pool)
  exceptions : Succeeds (m.exceptions c.pool)
  isConstructor : Succeeds (m.isConstructor c.pool)
  isStaticInitializer : Succeeds (m.isStaticInitializer c.pool)
  display : ∀ qualified, Succeeds (c.displayMethod m qualified)

/-- No query on the class, its members or their attributes fails. -/
structure ClassFile.Answers (c : ClassFile) : Prop where
  name : Succeeds c.name
  javaName : Succeeds c.javaName
  packageName : Succeeds c.packageName
  simpleName : Succeeds c.simpleName
  superclassName : Succeeds c.superclassName
  interfaceNames : Succeeds c.interfaceNames
  summary : Succeeds c.summary
  sourceFile : Succeeds c.sourceFile
  signature : Succeeds c.signature
  genericSignature : Succeeds c.genericSignature
  fieldNamed : ∀ name, Succeeds (c.fieldNamed? name)
  methodsNamed : ∀ name, Succeeds (c.methodsNamed name)
  methodNamed : ∀ name descriptor, Succeeds (c.methodNamed? name descriptor)
  constructors : Succeeds c.constructors
  deprecatedMembers : Succeeds c.deprecatedMembers
  fields : ∀ f ∈ c.fields, f.Answers c.pool
  methods : ∀ m ∈ c.methods, m.Answers c
  attributes : ∀ a ∈ c.attributes.stored, a.payload.Answers c.pool

/-! ### Attributes -/

theorem ConstantPool.RefersTo.className (hp : pool.Linked) {index : UInt16}
    (h : pool.RefersTo index [.classRef]) : Succeeds (pool.className index.toNat) :=
  (exists_className_index hp index).mpr h

theorem Payload.Resolved.answers {p : Payload} (hp : pool.Linked) (h : p.Resolved pool form) :
    p.Answers pool := by
  refine ⟨?_, ?_, ?_, ?_⟩
  · intro i hi
    cases p with
    | constantValue index =>
        cases hi
        exact (ConstantPool.exists_literal_index hp _).mpr h
    | _ => cases hi
  · intro i hi
    cases p with
    | signature index =>
        cases hi
        obtain ⟨t, ht, -⟩ := h
        exact ⟨t, ht⟩
    | _ => cases hi
  · intro i hi
    cases p with
    | sourceFile index =>
        cases hi
        exact ConstantPool.exists_utf8 h
    | _ => cases hi
  · intro is his
    cases p with
    | exceptions indices =>
        cases his
        exact .mapM fun i hi => (h i hi).className hp
    | _ => cases his

namespace AttributeSet

variable {s : AttributeSet}

/-- What is found is the payload of an attribute, whichever of several it is. -/
theorem mem_of_first? {α : Type} {kind : Payload → Option α} {a : Attribute α}
    (h : s.first? kind = some a) : ∃ b ∈ s.stored, kind b.payload = some a.payload := by
  obtain ⟨b, hb, hkind⟩ := List.exists_of_findSome?_eq_some h
  obtain ⟨p, hp, rfl⟩ := Option.map_eq_some_iff.mp hkind
  exact ⟨b, hb, hp⟩

theorem Resolved.answers (hp : pool.Linked) (h : s.Resolved pool form) :
    ∀ a ∈ s.stored, a.payload.Answers pool :=
  fun a ha => (h a ha).answers hp

/-- The first signature is a text of the form that it is going to be read in. -/
theorem Resolved.refersToForm (h : s.Resolved pool form) {a : Attribute UInt16}
    (ha : s.first? Payload.signature? = some a) : pool.RefersToForm a.payload form := by
  obtain ⟨b, hb, hindex⟩ := mem_of_first? ha
  have hresolved := h b hb
  cases hpayload : b.payload with
  | signature index =>
      rw [hpayload] at hresolved hindex
      cases hindex
      exact hresolved
  | _ =>
      rw [hpayload] at hindex
      cases hindex

theorem Resolved.signature (h : s.Resolved pool form) : Succeeds (s.signature pool) := by
  refine .optionMapM fun a ha => ?_
  obtain ⟨t, ht, -⟩ := h.refersToForm ha
  exact ⟨t, ht⟩

theorem Resolved.accepts (h : s.Resolved pool form) {t : Text}
    (ht : s.signature pool = .ok (some t)) : form.Accepts t := by
  unfold AttributeSet.signature at ht
  cases hfirst : s.first? Payload.signature? with
  | none =>
      rw [hfirst] at ht
      cases ht
  | some a =>
      obtain ⟨u, hu, haccepts⟩ := h.refersToForm hfirst
      rw [hfirst, Option.mapM_some, hu] at ht
      cases ht
      exact haccepts

end AttributeSet

/-! ### Members -/

namespace Member.Resolved

variable {owner : OwnerKind} {m : Member}

theorem descriptor_ok (h : m.Resolved pool owner form) :
    ∃ d, m.descriptor pool = .ok d ∧ form.Accepts d :=
  h.descriptor

theorem answers (hp : pool.Linked) (h : m.Resolved pool owner form) : m.Answers pool := by
  have hname : Succeeds (m.name pool) := ConstantPool.exists_utf8 h.name
  obtain ⟨d, hd, -⟩ := h.descriptor_ok
  refine ⟨hname, ⟨d, hd⟩, h.attributes.signature, fun title => ?_, h.attributes.answers hp⟩
  exact hname.bind fun _ _ => .bind ⟨d, hd⟩ fun _ _ => .pure _

end Member.Resolved

theorem Field.answers {f : Field} (hp : pool.Linked)
    (h : f.toMember.Resolved pool .ofField .fieldDescriptor) : f.Answers pool := by
  refine ⟨h.answers hp, ?_, ?_⟩
  · refine h.attributes.signature.bind fun s hs => ?_
    cases s with
    | some t => exact h.attributes.accepts hs
    | none =>
        obtain ⟨d, hd, haccepts⟩ := h.descriptor_ok
        refine .bind ⟨d, hd⟩ fun d' hd' => ?_
        cases hd.symm.trans hd'
        exact haccepts
  · refine .optionMapM fun a ha => ?_
    obtain ⟨b, hb, hindex⟩ := AttributeSet.mem_of_first? ha
    exact (h.attributes.answers hp b hb).constantValue _ hindex

namespace Method

variable {m : Method} (hp : pool.Linked)
  (h : m.toMember.Resolved pool .ofMethod .methodDescriptor)
include h

theorem type_succeeds : Succeeds (m.type pool) := by
  obtain ⟨d, hd, erased, herased⟩ := h.descriptor_ok
  refine .bind ⟨d, hd⟩ fun d' hd' => ?_
  cases hd.symm.trans hd'
  refine .bind ⟨erased, herased⟩ fun _ _ => h.attributes.signature.bind fun s hs => ?_
  cases s with
  | none => exact .pure _
  | some t =>
      exact .bind (h.attributes.accepts hs) fun generic _ => .ite (.pure _) (.pure _)

theorem parameterNames_succeeds : Succeeds (m.parameterNames pool) := by
  refine (type_succeeds h).bind fun type _ => ?_
  split
  · exact .ite (.pure _) (.pure _)
  · exact .pure _

include hp in
theorem exceptions_succeeds : Succeeds (m.exceptions pool) := by
  unfold Method.exceptions
  split
  · rename_i a ha
    obtain ⟨b, hb, hindices⟩ := AttributeSet.mem_of_first? ha
    exact (h.attributes.answers hp b hb).exceptions _ hindices
  · exact .pure []

end Method

/-! ### Classes -/

namespace ClassFile

variable {c : ClassFile}

namespace Resolved

variable (h : c.Resolved)
include h

theorem name_succeeds : Succeeds c.name :=
  h.thisClass.className h.linked

theorem simpleName_succeeds : Succeeds c.simpleName := by
  refine h.name_succeeds.bind fun name _ => ?_
  dsimp only
  split
  · exact .pure _
  · exact .pure _

theorem superclassName_succeeds : Succeeds c.superclassName := by
  unfold superclassName
  by_cases hzero : c.superclass = 0
  · rw [if_pos hzero]
    exact .pure none
  · rw [if_neg hzero]
    exact ((h.superclass hzero).className h.linked).bind fun _ _ => .pure _

theorem fieldAnswers : ∀ f ∈ c.fields, f.Answers c.pool :=
  fun f hf => Field.answers h.linked (h.fields f hf)

/-- A constructor is displayed by the simple name of the class, and any other method by its own. -/
theorem methodAnswers : ∀ m ∈ c.methods, m.Answers c := by
  intro m hm
  have hm' := h.methods m hm
  have hmember := hm'.answers h.linked
  have hnames := Method.parameterNames_succeeds hm'
  have htype := Method.type_succeeds hm'
  refine ⟨hmember, htype, hnames, Method.exceptions_succeeds h.linked hm',
    hmember.name.bind fun _ _ => .pure _, hmember.name.bind fun _ _ => .pure _,
    fun qualified => ?_⟩
  have hdisplay : ∀ shown, Succeeds (m.display c.pool shown qualified) :=
    fun shown => htype.bind fun _ _ => hnames.bind fun _ _ => .pure _
  refine hmember.name.bind fun name _ => ?_
  dsimp only
  split
  · exact h.simpleName_succeeds.bind fun shown _ => hdisplay shown
  · exact hdisplay name

theorem methodsNamed_succeeds (name : Text) : Succeeds (c.methodsNamed name) :=
  .bind (.mapM fun m hm => (h.methodAnswers m hm).name) fun _ _ => .pure _

theorem methodNamed_succeeds (name descriptor : Text) :
    Succeeds (c.methodNamed? name descriptor) := by
  refine .bind (.mapM fun m hm => ?_) fun _ _ => .pure _
  have hmember := h.methodAnswers m hm
  exact hmember.name.bind fun _ _ => hmember.descriptor.bind fun _ _ => .pure _

theorem deprecatedMembers_succeeds : Succeeds c.deprecatedMembers := by
  refine .mapM fun m hm => ?_
  rcases List.mem_append.mp (List.mem_of_mem_filter hm) with hm | hm
  · obtain ⟨f, hf, rfl⟩ := List.mem_map.mp hm
    exact (h.fieldAnswers f hf).name
  · obtain ⟨f, hf, rfl⟩ := List.mem_map.mp hm
    exact (h.methodAnswers f hf).name

theorem sourceFile_succeeds : Succeeds c.sourceFile := by
  refine .optionMapM fun a ha => ?_
  obtain ⟨b, hb, hindex⟩ := AttributeSet.mem_of_first? ha
  exact (h.attributes.answers h.linked b hb).sourceFile _ hindex

theorem genericSignature_succeeds : Succeeds c.genericSignature := by
  refine h.attributes.signature.bind fun s hs => .optionMapM fun t ht => ?_
  cases ht
  exact h.attributes.accepts hs

theorem answers : c.Answers where
  name := h.name_succeeds
  javaName := h.name_succeeds.bind fun _ _ => .pure _
  packageName := h.name_succeeds.bind fun _ _ => .pure _
  simpleName := h.simpleName_succeeds
  superclassName := h.superclassName_succeeds
  interfaceNames := .mapM fun i hi => (h.interfaces i hi).className h.linked
  summary := h.name_succeeds.bind fun _ _ => .pure _
  sourceFile := h.sourceFile_succeeds
  signature := h.attributes.signature
  genericSignature := h.genericSignature_succeeds
  fieldNamed _ := .bind (.mapM fun f hf => (h.fieldAnswers f hf).name) fun _ _ => .pure _
  methodsNamed := h.methodsNamed_succeeds
  methodNamed := h.methodNamed_succeeds
  constructors := h.methodsNamed_succeeds _
  deprecatedMembers := h.deprecatedMembers_succeeds
  fields := h.fieldAnswers
  methods := h.methodAnswers
  attributes := h.attributes.answers h.linked

end Resolved

/-- **No query on a class that has been read fails**, whatever the file holds. -/
theorem ofBytes_answers {policy : ReadPolicy} {bytes : List UInt8}
    (h : ofBytes policy bytes = .ok c) : c.Answers :=
  (ofBytes_resolved h).answers

theorem ofBytes_answers_everyAttribute :
    ofBytes .standard everyAttribute.encode = .ok (everyAttribute.view Annotation.merge) ∧
      (everyAttribute.view Annotation.merge).Answers :=
  ⟨ofBytes_everyAttribute, ofBytes_answers ofBytes_everyAttribute⟩

end ClassFile

end ClassFormat
