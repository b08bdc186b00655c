/-
Attributes of classes, fields, methods and code.

An attribute has a name, the length of its payload in bytes, and the payload.  What a payload
means depends on the name and on the owner; the payload of a name that the owner does not know is
not interpreted.  References into the constant pool are kept as indices where a query resolves
them later, and as texts where the entries of a table hold them.
-/
import ClassFormat.Annotation
import ClassFormat.Text.Numeral

namespace ClassFormat

/-- An attribute with a payload of some type. -/
structure Attribute (Payload : Type) where
  name : Text
  length : Nat
  payload : Payload

/--
A class that is nested in another, or that refers to one.  Classes without a name or without a
class around them are anonymous or local.
-/
structure InnerClass where
  inner : Text
  outer : Option Text
  name : Option Text
  flags : UInt16
  deriving DecidableEq

/-- A parameter of a method as it was declared. -/
structure MethodParameter where
  name : Option Text
  flags : UInt16
  deriving DecidableEq

/-- An exception handler of a method body; without a type it catches everything. -/
structure ExceptionHandler where
  first : UInt16
  last : UInt16
  handler : UInt16
  catches : Option Text
  deriving DecidableEq

/-- A position in a method body, and the source line it comes from. -/
structure LineNumber where
  position : UInt16
  line : UInt16
  deriving DecidableEq

/-- The payload of an attribute of a method body. -/
inductive CodePayload where
  | lineNumbers (entries : List LineNumber)
  | uninterpreted

/-- A method body.  The instructions are bytes that nothing here looks into. -/
structure Code where
  maxStack : UInt16
  maxLocals : UInt16
  instructions : List UInt8
  handlers : List ExceptionHandler
  attributes : List (Attribute CodePayload)

/-- The payload of an attribute of a class, a field or a method. -/
inductive Payload where
  | constantValue (index : UInt16)
  | signature (index : UInt16)
  | sourceFile (index : UInt16)
  | exceptions (indices : List UInt16)
  | innerClasses (classes : List InnerClass)
  | methodParameters (parameters : List MethodParameter)
  | code (body : Code)
  | annotations (content : List Annotation)
  | uninterpreted

namespace CodePayload

/-- What the payload is, in one word. -/
def title : CodePayload → String
  | lineNumbers _ => "LineNumberTableAttribute"
  | uninterpreted => "UnsupportedAttribute"

/-- The line numbers of the payload. -/
def entries : CodePayload → List LineNumber
  | lineNumbers es => es
  | uninterpreted => []

end CodePayload

namespace Payload

/-- What the payload is, in one word. -/
def title : Payload → String
  | constantValue _ => "ConstantValueAttribute"
  | signature _ => "SignatureAttribute"
  | sourceFile _ => "SourceFileAttribute"
  | exceptions _ => "ExceptionsAttribute"
  | innerClasses _ => "InnerClassesAttribute"
  | methodParameters _ => "MethodParametersAttribute"
  | code _ => "CodeAttribute"
  | annotations _ => "AnnotationsAttribute"
  | uninterpreted => "UnsupportedAttribute"

/-- The index of the value of a field. -/
def constantValue? : Payload → Option UInt16
  | constantValue i => some i
  | _ => none

/-- The index of a signature. -/
def signature? : Payload → Option UInt16
  | signature i => some i
  | _ => none

/-- The index of the name of a source file. -/
def sourceFile? : Payload → Option UInt16
  | sourceFile i => some i
  | _ => none

/-- The indices of the declared exceptions. -/
def exceptions? : Payload → Option (List UInt16)
  | exceptions is => some is
  | _ => none

/-- The table of nested classes. -/
def innerClasses? : Payload → Option (List InnerClass)
  | innerClasses cs => some cs
  | _ => none

/-- The declared parameters. -/
def methodParameters? : Payload → Option (List MethodParameter)
  | methodParameters ps => some ps
  | _ => none

/-- The method body. -/
def code? : Payload → Option Code
  | code c => some c
  | _ => none

/-- The annotations, none if the payload holds something else. -/
def annotationList : Payload → List Annotation
  | annotations as => as
  | _ => []

end Payload

namespace Code

/-- The line numbers of all tables of the body. -/
def lineNumbers (body : Code) : List LineNumber :=
  body.attributes.flatMap fun a => a.payload.entries

end Code

namespace Attribute

/-- The attribute in a few words, given what its payload is. -/
def summary {Payload : Type} (title : Payload → String) (a : Attribute Payload) : Text :=
  .concat ["<", title a.payload, " ", a.name, " (", .ofNat a.length, " bytes)>"]

/-- Whether annotations of this attribute are kept at run time. -/
def isVisible (a : Attribute Payload) : Bool :=
  a.name == ("RuntimeVisibleAnnotations" : Text)

end Attribute

/--
What an owner has: its attributes in order, and the mark of deprecation, which is no attribute
of its own.
-/
structure AttributeSet where
  stored : List (Attribute Payload)
  deprecated : Bool

namespace AttributeSet

/-- The first attribute of a name. -/
def named? (s : AttributeSet) (name : Text) : Option (Attribute Payload) :=
  s.stored.find? fun a => a.name = name

/-- The first attribute whose payload is of some kind, with what the payload holds. -/
def first? {α : Type} (s : AttributeSet) (kind : Payload → Option α) : Option (Attribute α) :=
  s.stored.findSome? fun a => (kind a.payload).map fun p => ⟨a.name, a.length, p⟩

/-- The text of the signature, if there is one. -/
def signature (s : AttributeSet) (pool : ConstantPool) : Except Fault (Option Text) :=
  (s.first? Payload.signature?).mapM fun a => pool.utf8 a.payload.toNat

/-- All annotations of all attributes. -/
def annotations (s : AttributeSet) : List Annotation :=
  s.stored.flatMap fun a => a.payload.annotationList

/-- The same attributes, marked as deprecated. -/
def markDeprecated (s : AttributeSet) : AttributeSet :=
  { s with deprecated := true }

end AttributeSet

end ClassFormat
