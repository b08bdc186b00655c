/-
Attributes as bytes.

A layout of an attribute is the index of its name and the layout of its payload; the
length that stands between the two in a file is that of the payload and nothing else.
Which kind of payload belongs to a name depends on the owner, and `interpreted` lists
it for each; under any other name the payload is any string of bytes.

The mark of deprecation is written like an attribute.  It shows no attribute, so a list
of attributes shows those that are stored and whether a mark is among them.

How annotations are settled after they have been read is left open here: what a layout
shows takes that as a parameter.
-/
import ClassFormat.Attribute.Decode
import ClassFormat.Proofs.Annotation.Layout

namespace ClassFormat

/-! ### Frames -/

/-- An attribute as it is written. -/
structure AttributeLayout (P : Type) where
  nameIndex : UInt16
  payload : P

namespace AttributeLayout

variable {P Payload : Type}

/-- An attribute in bytes, given the bytes of payloads. -/
def encode (encodePayload : P → List UInt8) (x : AttributeLayout P) : List UInt8 :=
  Encoder.u2 x.nameIndex ++
    (Encoder.u4 (.ofNat (encodePayload x.payload).length) ++ encodePayload x.payload)

/-- The name of an attribute. -/
def name (pool : ConstantPool) (x : AttributeLayout P) : Text :=
  pool.textAt x.nameIndex

/-- The attribute that a layout shows. -/
def view (pool : ConstantPool) (encodePayload : P → List UInt8) (viewPayload : P → Payload)
    (x : AttributeLayout P) : Attribute Payload :=
  ⟨x.name pool, (encodePayload x.payload).length, viewPayload x.payload⟩

/-- The name is a text, the length fits its field, and the payload is one for the name. -/
structure WellFormed (pool : ConstantPool) (encodePayload : P → List UInt8)
    (ok : Text → P → Prop) (x : AttributeLayout P) : Prop where
  named : pool.RefersTo x.nameIndex [.utf8]
  fits : (encodePayload x.payload).length < 4294967296
  payload : ok (x.name pool) x.payload

instance (pool : ConstantPool) (encodePayload : P → List UInt8) (ok : Text → P → Prop)
    [∀ name p, Decidable (ok name p)] (x : AttributeLayout P) :
    Decidable (x.WellFormed pool encodePayload ok) :=
  decidable_of_iff (pool.RefersTo x.nameIndex [.utf8] ∧
      (encodePayload x.payload).length < 4294967296 ∧ ok (x.name pool) x.payload)
    ⟨fun ⟨h₁, h₂, h₃⟩ => ⟨h₁, h₂, h₃⟩, fun h => ⟨h.named, h.fits, h.payload⟩⟩

end AttributeLayout

namespace ConstantPool

/-- What an index stands for, where index 0 stands for nothing. -/
def optionalAt (resolve : UInt16 → Text) (index : UInt16) : Option Text :=
  if index = 0 then none else some (resolve index)

/-- The index is 0 or resolves to a constant of one of the given kinds. -/
def MayReferTo (pool : ConstantPool) (index : UInt16) (expected : List Tag) : Prop :=
  index ≠ 0 → pool.RefersTo index expected

instance (pool : ConstantPool) (index : UInt16) (expected : List Tag) :
    Decidable (pool.MayReferTo index expected) :=
  inferInstanceAs (Decidable (index ≠ 0 → pool.RefersTo index expected))

end ConstantPool

/-! ### Method bodies -/

/-- The payload of an attribute of a method body as it is written. -/
inductive CodePayloadLayout where
  | lineNumbers (entries : List LineNumber)
  | other (bytes : List UInt8)

/-- An exception handler as it is written. -/
structure HandlerLayout where
  first : UInt16
  last : UInt16
  handler : UInt16
  catchType : UInt16

/-- A method body as it is written. -/
structure CodeLayout where
  maxStack : UInt16
  maxLocals : UInt16
  instructions : List UInt8
  handlers : List HandlerLayout
  attributes : List (AttributeLayout CodePayloadLayout)

/-- A position and its line in bytes. -/
def LineNumber.encode (x : LineNumber) : List UInt8 :=
  Encoder.u2 x.position ++ Encoder.u2 x.line

namespace CodePayloadLayout

/-- The payload in bytes. -/
def encode : CodePayloadLayout → List UInt8
  | lineNumbers entries => Encoder.counted LineNumber.encode entries
  | other bytes => bytes

/-- The payload that a layout shows. -/
def view : CodePayloadLayout → CodePayload
  | lineNumbers entries => .lineNumbers entries
  | other _ => .uninterpreted

/-- There is one kind of payload that is interpreted. -/
def kind? : CodePayloadLayout → Option Unit
  | lineNumbers _ => some ()
  | other _ => none

/-- The counts fit their fields. -/
def WellFormed : CodePayloadLayout → Prop
  | lineNumbers entries => entries.length < 65536
  | other _ => True

/-- The names that are interpreted. -/
def interpreted : List (Text × Unit) :=
  [("LineNumberTable", ())]

/-- The payload is well formed and of the kind that belongs to the name. -/
def Fits (name : Text) (x : CodePayloadLayout) : Prop :=
  x.kind? = interpreted.lookup name ∧ x.WellFormed

instance (x : CodePayloadLayout) : Decidable x.WellFormed := by
  cases x <;> unfold WellFormed <;> infer_instance

instance (name : Text) (x : CodePayloadLayout) : Decidable (Fits name x) :=
  inferInstanceAs (Decidable (x.kind? = interpreted.lookup name ∧ x.WellFormed))

end CodePayloadLayout

namespace HandlerLayout

/-- An exception handler in bytes. -/
def encode (x : HandlerLayout) : List UInt8 :=
  Encoder.u2 x.first ++ (Encoder.u2 x.last ++ (Encoder.u2 x.handler ++ Encoder.u2 x.catchType))

/-- The exception handler that a layout shows. -/
def view (pool : ConstantPool) (x : HandlerLayout) : ExceptionHandler :=
  ⟨x.first, x.last, x.handler, ConstantPool.optionalAt pool.classNameAt x.catchType⟩

/-- The type is a class if there is one. -/
def WellFormed (pool : ConstantPool) (x : HandlerLayout) : Prop :=
  pool.MayReferTo x.catchType [.classRef]

instance (pool : ConstantPool) (x : HandlerLayout) : Decidable (x.WellFormed pool) :=
  inferInstanceAs (Decidable (pool.MayReferTo x.catchType [.classRef]))

end HandlerLayout

namespace CodeLayout

/-- A method body in bytes. -/
def encode (x : CodeLayout) : List UInt8 :=
  Encoder.u2 x.maxStack ++ (Encoder.u2 x.maxLocals ++
    ((Encoder.u4 (.ofNat x.instructions.length) ++ x.instructions) ++
      (Encoder.counted HandlerLayout.encode x.handlers ++
        Encoder.counted (AttributeLayout.encode CodePayloadLayout.encode) x.attributes)))

/-- The method body that a layout shows. -/
def view (pool : ConstantPool) (x : CodeLayout) : Code where
  maxStack := x.maxStack
  maxLocals := x.maxLocals
  instructions := x.instructions
  handlers := x.handlers.map (HandlerLayout.view pool)
  attributes := x.attributes.map
    (AttributeLayout.view pool CodePayloadLayout.encode CodePayloadLayout.view)

/-- The counts fit their fields, and the handlers and attributes are well formed. -/
structure WellFormed (pool : ConstantPool) (x : CodeLayout) : Prop where
  instructions : x.instructions.length < 4294967296
  handlerCount : x.handlers.length < 65536
  handlers : ∀ h ∈ x.handlers, h.WellFormed pool
  attributeCount : x.attributes.length < 65536
  attributes : ∀ a ∈ x.attributes,
    a.WellFormed pool CodePayloadLayout.encode CodePayloadLayout.Fits

instance (pool : ConstantPool) (x : CodeLayout) : Decidable (x.WellFormed pool) :=
  decidable_of_iff (x.instructions.length < 4294967296 ∧ x.handlers.length < 65536 ∧
      (∀ h ∈ x.handlers, h.WellFormed pool) ∧ x.attributes.length < 65536 ∧
      ∀ a ∈ x.attributes, a.WellFormed pool CodePayloadLayout.encode CodePayloadLayout.Fits)
    ⟨fun ⟨h₁, h₂, h₃, h₄, h₅⟩ => ⟨h₁, h₂, h₃, h₄, h₅⟩,
      fun h => ⟨h.instructions, h.handlerCount, h.handlers, h.attributeCount, h.attributes⟩⟩

end CodeLayout

/-! ### Payloads -/

/-- An entry of the table of nested classes as it is written. -/
structure InnerClassLayout where
  inner : UInt16
  outer : UInt16
  name : UInt16
  flags : UInt16

/-- A declared parameter as it is written. -/
structure MethodParameterLayout where
  name : UInt16
  flags : UInt16

/-- The payload of an attribute of a class, a field or a method as it is written. -/
inductive PayloadLayout where
  | constantValue (index : UInt16)
  | signature (index : UInt16)
  | sourceFile (index : UInt16)
  | exceptions (indices : List UInt16)
  | innerClasses (classes : List InnerClassLayout)
  | methodParameters (parameters : List MethodParameterLayout)
  | code (body : CodeLayout)
  | annotations (content : List AnnotationLayout)
  | other (bytes : List UInt8)

/-- The kinds of payloads that are interpreted. -/
inductive PayloadKind where
  | constantValue
  | signature
  | sourceFile
  | exceptions
  | innerClasses
  | methodParameters
  | code
  | annotations
  deriving DecidableEq

namespace InnerClassLayout

/-- An entry of the table in bytes. -/
def encode (x : InnerClassLayout) : List UInt8 :=
  Encoder.u2 x.inner ++ (Encoder.u2 x.outer ++ (Encoder.u2 x.name ++ Encoder.u2 x.flags))

/-- The entry of the table that a layout shows. -/
def view (pool : ConstantPool) (x : InnerClassLayout) : InnerClass :=
  ⟨pool.classNameAt x.inner, ConstantPool.optionalAt pool.classNameAt x.outer,
    ConstantPool.optionalAt pool.textAt x.name, x.flags⟩

/-- Both classes are classes and the name is a text, as far as they are there. -/
structure WellFormed (pool : ConstantPool) (x : InnerClassLayout) : Prop where
  inner : pool.RefersTo x.inner [.classRef]
  outer : pool.MayReferTo x.outer [.classRef]
  name : pool.MayReferTo x.name [.utf8]

instance (pool : ConstantPool) (x : InnerClassLayout) : Decidable (x.WellFormed pool) :=
  decidable_of_iff (pool.RefersTo x.inner [.classRef] ∧ pool.MayReferTo x.outer [.classRef] ∧
      pool.MayReferTo x.name [.utf8])
    ⟨fun ⟨h₁, h₂, h₃⟩ => ⟨h₁, h₂, h₃⟩, fun h => ⟨h.inner, h.outer, h.name⟩⟩

end InnerClassLayout

namespace MethodParameterLayout

/-- A declared parameter in bytes. -/
def encode (x : MethodParameterLayout) : List UInt8 :=
  Encoder.u2 x.name ++ Encoder.u2 x.flags

/-- The declared parameter that a layout shows. -/
def view (pool : ConstantPool) (x : MethodParameterLayout) : MethodParameter :=
  ⟨ConstantPool.optionalAt pool.textAt x.name, x.flags⟩

/-- The name is a text if there is one. -/
def WellFormed (pool : ConstantPool) (x : MethodParameterLayout) : Prop :=
  pool.MayReferTo x.name [.utf8]

instance (pool : ConstantPool) (x : MethodParameterLayout) : Decidable (x.WellFormed pool) :=
  inferInstanceAs (Decidable (pool.MayReferTo x.name [.utf8]))

end MethodParameterLayout

namespace PayloadLayout

/-- The payload in bytes.  Parameters are the only list with a count of one byte. -/
def encode : PayloadLayout → List UInt8
  | constantValue index | signature index | sourceFile index => Encoder.u2 index
  | exceptions indices => Encoder.counted Encoder.u2 indices
  | innerClasses classes => Encoder.counted InnerClassLayout.encode classes
  | methodParameters parameters =>
    Encoder.u1 (.ofNat parameters.length) ++ parameters.flatMap MethodParameterLayout.encode
  | code body => body.encode
  | annotations content => Encoder.counted AnnotationLayout.encode content
  | other bytes => bytes

/-- The payload that a layout shows. -/
def view (pool : ConstantPool) (settle : Annotation → Annotation) : PayloadLayout → Payload
  | constantValue index => .constantValue index
  | signature index => .signature index
  | sourceFile index => .sourceFile index
  | exceptions indices => .exceptions indices
  | innerClasses classes => .innerClasses (classes.map (InnerClassLayout.view pool))
  | methodParameters parameters =>
    .methodParameters (parameters.map (MethodParameterLayout.view pool))
  | code body => .code (body.view pool)
  | annotations content => .annotations (content.map fun a => settle (a.view pool))
  | other _ => .uninterpreted

/-- The kind of the payload if it is an interpreted one. -/
def kind? : PayloadLayout → Option PayloadKind
  | constantValue _ => some .constantValue
  | signature _ => some .signature
  | sourceFile _ => some .sourceFile
  | exceptions _ => some .exceptions
  | innerClasses _ => some .innerClasses
  | methodParameters _ => some .methodParameters
  | code _ => some .code
  | annotations _ => some .annotations
  | other _ => none

/-- What a payload of each kind is made of. -/
theorem exists_of_kind {x : PayloadLayout} {kind : Option PayloadKind} : x.kind? = kind →
    match kind with
    | some .constantValue => ∃ index, constantValue index = x
    | some .signature => ∃ index, signature index = x
    | some .sourceFile => ∃ index, sourceFile index = x
    | some .exceptions => ∃ indices, exceptions indices = x
    | some .innerClasses => ∃ classes, innerClasses classes = x
    | some .methodParameters => ∃ parameters, methodParameters parameters = x
    | some .code => ∃ body, code body = x
    | some .annotations => ∃ content, annotations content = x
    | none => ∃ bytes, other bytes = x := by
  rintro rfl
  cases x with
  | constantValue v | signature v | sourceFile v | exceptions v | innerClasses v
  | methodParameters v | code v | annotations v | other v => exact ⟨v, rfl⟩

/--
Every index leads to a constant of the right kind, the counts fit their fields, and
signatures are texts of the given language.
-/
def WellFormed (pool : ConstantPool) (language : Text → Prop) : PayloadLayout → Prop
  | constantValue index => pool.RefersTo index Tag.loadable
  | signature index => pool.RefersTo index [.utf8] ∧ language (pool.textAt index)
  | sourceFile index => pool.RefersTo index [.utf8]
  | exceptions indices => indices.length < 65536 ∧ ∀ i ∈ indices, pool.RefersTo i [.classRef]
  | innerClasses classes => classes.length < 65536 ∧ ∀ c ∈ classes, c.WellFormed pool
  | methodParameters parameters =>
    parameters.length < 256 ∧ ∀ p ∈ parameters, p.WellFormed pool
  | code body => body.WellFormed pool
  | annotations content => content.length < 65536 ∧ ∀ a ∈ content, a.WellFormed pool
  | other _ => True

instance (pool : ConstantPool) (language : Text → Prop) [DecidablePred language]
    (x : PayloadLayout) : Decidable (x.WellFormed pool language) := by
  cases x with
  | exceptions indices =>
      -- The indices of the list are looked at, not all there can be.
      have := List.decidableBAll (fun i => pool.RefersTo i [.classRef]) indices
      unfold WellFormed
      infer_instance
  | _ =>
      unfold WellFormed
      infer_instance

/-- The layouts of the annotations of the payload. -/
def annotationLayouts : PayloadLayout → List AnnotationLayout
  | annotations content => content
  | _ => []

end PayloadLayout

/-! ### Owners -/

namespace OwnerKind

/-- What form the signature of an owner has. -/
def signatureForm : OwnerKind → SignatureForm
  | ofClass => .classSignature
  | ofField => .fieldSignature
  | ofMethod => .methodSignature

/-- The names that are interpreted for every owner. -/
def sharedInterpreted : List (Text × PayloadKind) :=
  [("RuntimeVisibleAnnotations", .annotations), ("RuntimeInvisibleAnnotations", .annotations)]

/-- The names that are interpreted for an owner, and what kind of payload belongs to each. -/
def interpreted : OwnerKind → List (Text × PayloadKind)
  | ofClass => ("SourceFile", .sourceFile) :: ("Signature", .signature)
      :: ("InnerClasses", .innerClasses) :: sharedInterpreted
  | ofField => ("ConstantValue", .constantValue) :: ("Signature", .signature)
      :: sharedInterpreted
  | ofMethod => ("Code", .code) :: ("Exceptions", .exceptions) :: ("Signature", .signature)
      :: ("MethodParameters", .methodParameters) :: sharedInterpreted

end OwnerKind

/-- The name of the mark of deprecation. -/
def markerName : Text := "Deprecated"

namespace PayloadLayout

/--
The payload is well formed and of the kind that belongs to the name, and a mark of
deprecation has no bytes.
-/
structure Fits (pool : ConstantPool) (language : SignatureForm → Text → Prop)
    (owner : OwnerKind) (name : Text) (x : PayloadLayout) : Prop where
  kind : x.kind? = owner.interpreted.lookup name
  content : x.WellFormed pool (language owner.signatureForm)
  marker : name = markerName → x.encode.length = 0

instance (pool : ConstantPool) (language : SignatureForm → Text → Prop)
    [∀ form, DecidablePred (language form)] (owner : OwnerKind) (name : Text)
    (x : PayloadLayout) : Decidable (Fits pool language owner name x) :=
  decidable_of_iff (x.kind? = owner.interpreted.lookup name ∧
      x.WellFormed pool (language owner.signatureForm) ∧
      (name = markerName → x.encode.length = 0))
    ⟨fun ⟨h₁, h₂, h₃⟩ => ⟨h₁, h₂, h₃⟩, fun h => ⟨h.kind, h.content, h.marker⟩⟩

end PayloadLayout

/-- The attributes of an owner as they are written, marks of deprecation among them. -/
abbrev AttributesLayout := List (AttributeLayout PayloadLayout)

namespace AttributesLayout

/-- The list in bytes. -/
def encode (xs : AttributesLayout) : List UInt8 :=
  Encoder.counted (AttributeLayout.encode PayloadLayout.encode) xs

/-- What the list shows: its attributes without the marks, and whether there are marks. -/
def view (pool : ConstantPool) (settle : Annotation → Annotation) (xs : AttributesLayout) :
    AttributeSet where
  stored := (xs.filter fun x => x.name pool ≠ markerName).map
    (AttributeLayout.view pool PayloadLayout.encode (PayloadLayout.view pool settle))
  deprecated := xs.any fun x => x.name pool = markerName

/-- The count fits its field and all attributes are well formed. -/
structure WellFormed (pool : ConstantPool) (language : SignatureForm → Text → Prop)
    (owner : OwnerKind) (xs : AttributesLayout) : Prop where
  count : xs.length < 65536
  each : ∀ x ∈ xs, x.WellFormed pool PayloadLayout.encode (PayloadLayout.Fits pool language owner)

instance (pool : ConstantPool) (language : SignatureForm → Text → Prop)
    [∀ form, DecidablePred (language form)] (owner : OwnerKind) (xs : AttributesLayout) :
    Decidable (xs.WellFormed pool language owner) :=
  decidable_of_iff (xs.length < 65536 ∧ ∀ x ∈ xs, x.WellFormed pool PayloadLayout.encode
      (PayloadLayout.Fits pool language owner))
    ⟨fun ⟨h₁, h₂⟩ => ⟨h₁, h₂⟩, fun h => ⟨h.count, h.each⟩⟩

/-- The layouts of the annotations of all attributes. -/
def annotationLayouts (xs : AttributesLayout) : List AnnotationLayout :=
  xs.flatMap fun x => x.payload.annotationLayouts

end AttributesLayout

end ClassFormat
