/-
Fields and methods.

A member names its constants by index; the queries resolve them in the constant pool that the
member was read with.  The indices and the texts behind them are checked when the member is read,
so a query on a member that was read does not fail.

A member may have a generic signature beside its descriptor.  The type of a field is then the
generic one.  The signature of a method may leave out parameters that the source does not show,
and it is used only if it has as many parameters as the descriptor.
-/
import ClassFormat.AccessFlags
import ClassFormat.Attribute.Decode
import ClassFormat.Signature.JavaName

namespace ClassFormat

open Decoder

/-- What fields and methods have in common. -/
structure Member where
  accessFlags : UInt16
  nameIndex : UInt16
  descriptorIndex : UInt16
  attributes : AttributeSet

/-- A field of a class. -/
structure Field extends Member

/-- A method, a constructor or the static initializer of a class. -/
structure Method extends Member

namespace Member

/-- The access flags of the member. -/
def flags (m : Member) : AccessFlags :=
  .ofUInt16 m.accessFlags

/-- Whether the member is marked as deprecated. -/
def isDeprecated (m : Member) : Bool :=
  m.attributes.deprecated

/-- Whether the member is public. -/
def isPublic (m : Member) : Bool :=
  m.flags.has .accPublic

/-- Whether the member is private. -/
def isPrivate (m : Member) : Bool :=
  m.flags.has .accPrivate

/-- Whether the member is protected. -/
def isProtected (m : Member) : Bool :=
  m.flags.has .accProtected

/-- Whether the member belongs to the class and not to its instances. -/
def isStatic (m : Member) : Bool :=
  m.flags.has .accStatic

/-- Whether the member is final. -/
def isFinal (m : Member) : Bool :=
  m.flags.has .accFinal

/-- Whether the member does not stand in the source code. -/
def isSynthetic (m : Member) : Bool :=
  m.flags.has .accSynthetic

/-- The name of the member. -/
def name (m : Member) (pool : ConstantPool) : Except Fault Text :=
  pool.utf8 m.nameIndex.toNat

/-- The text of the descriptor. -/
def descriptor (m : Member) (pool : ConstantPool) : Except Fault Text :=
  pool.utf8 m.descriptorIndex.toNat

/-- The text of the generic signature, if the member has one. -/
def signature (m : Member) (pool : ConstantPool) : Except Fault (Option Text) :=
  m.attributes.signature pool

/-- The member in a few words, after what it is. -/
def summary (title : String) (m : Member) (pool : ConstantPool) : Except Fault Text := do
  let name ← m.name pool
  let descriptor ← m.descriptor pool
  return .concat ["<", title, " ", name, " ", descriptor, ">"]

/--
A member, `label` being what messages call it.  Its descriptor must follow the given
grammar.
-/
def decode {α : Type} (pool : ConstantPool) (owner : OwnerKind) (label : String)
    (read : Text → Except Fault α) : Decoder Member := do
  let accessFlags ← u2 s!"{label} access_flags"
  let nameIndex ← u2 s!"{label} name_index"
  let descriptorIndex ← u2 s!"{label} descriptor_index"
  let _ ← ofResult (pool.utf8 nameIndex.toNat)
  let descriptor ← ofResult (pool.utf8 descriptorIndex.toNat)
  let _ ← ofResult (read descriptor)
  return ⟨accessFlags, nameIndex, descriptorIndex, ← AttributeSet.decode pool owner⟩

/-- The member, marked as deprecated. -/
def markDeprecated (m : Member) : Member :=
  { m with attributes := m.attributes.markDeprecated }

end Member

namespace Field

/-- A field with its attributes. -/
def decode (pool : ConstantPool) : Decoder Field := do
  return ⟨← Member.decode pool .ofField "field" readFieldDescriptor⟩

/-- Whether the field is left out where objects are written. -/
def isTransient (f : Field) : Bool :=
  f.flags.has .accTransient

/-- Whether the field is volatile. -/
def isVolatile (f : Field) : Bool :=
  f.flags.has .accVolatile

/-- Whether the field is a constant of an enumeration. -/
def isEnumConstant (f : Field) : Bool :=
  f.flags.has .accEnum

/-- The modifiers of the field. -/
def modifiers (f : Field) : List String :=
  f.flags.fieldModifiers

/-- The type of the field, generic if it has a signature. -/
def type (f : Field) (pool : ConstantPool) : Except Fault JavaType := do
  match ← f.signature pool with
  | some s => readFieldSignature s
  | none => readFieldDescriptor (← f.descriptor pool)

/-- The value of a constant field. -/
def constantValue (f : Field) (pool : ConstantPool) : Except Fault (Option Literal) :=
  (f.attributes.first? Payload.constantValue?).mapM fun a => pool.literal a.payload.toNat

end Field

namespace Method

/-- A method with its attributes. -/
def decode (pool : ConstantPool) : Decoder Method := do
  return ⟨← Member.decode pool .ofMethod "method" readMethodDescriptor⟩

/-- The name of every constructor. -/
def constructorName : Text := "<init>"

/-- The name of the static initializer. -/
def staticInitializerName : Text := "<clinit>"

/-- Whether the method has no body in the class. -/
def isAbstract (m : Method) : Bool :=
  m.flags.has .accAbstract

/-- Whether the body of the method is not a part of the class file. -/
def isNative (m : Method) : Bool :=
  m.flags.has .accNative

/-- Whether the method is synchronized. -/
def isSynchronized (m : Method) : Bool :=
  m.flags.has .accSynchronized

/-- Whether the last parameter of the method takes any number of arguments. -/
def isVariadic (m : Method) : Bool :=
  m.flags.has .accVarargs

/-- Whether the method stands in for another one with the same name. -/
def isBridge (m : Method) : Bool :=
  m.flags.has .accBridge

/-- Whether the method is a constructor, which its name says. -/
def isConstructor (m : Method) (pool : ConstantPool) : Except Fault Bool := do
  return (← m.name pool) = constructorName

/-- Whether the method is the static initializer, which its name says. -/
def isStaticInitializer (m : Method) (pool : ConstantPool) : Except Fault Bool := do
  return (← m.name pool) = staticInitializerName

/-- The modifiers of the method. -/
def modifiers (m : Method) : List String :=
  m.flags.methodModifiers

/--
The types of the method, generic if it has a signature for all parameters of its
descriptor.
-/
def type (m : Method) (pool : ConstantPool) : Except Fault MethodType := do
  let erased ← readMethodDescriptor (← m.descriptor pool)
  match ← m.signature pool with
  | some s =>
    let generic ← readMethodSignature s
    if generic.parameters.length = erased.parameters.length then return generic else return erased
  | none => return erased

/--
The name of each parameter, where it is known.  Declared parameters count only if there are
as many as the method has.
-/
def parameterNames (m : Method) (pool : ConstantPool) : Except Fault (List (Option Text)) := do
  let count := (← m.type pool).parameters.length
  match m.attributes.first? Payload.methodParameters? with
  | some a =>
    if a.payload.length = count then return a.payload.map (·.name)
    else return .replicate count none
  | none => return .replicate count none

/-- The internal names of the exceptions that the method declares. -/
def exceptions (m : Method) (pool : ConstantPool) : Except Fault (List Text) :=
  match m.attributes.first? Payload.exceptions? with
  | some a => a.payload.mapM fun i => pool.className i.toNat
  | none => return []

/-- The body of the method, if it has one. -/
def code (m : Method) : Option (Attribute Code) :=
  m.attributes.first? Payload.code?

/-! ### Display -/

/--
The type of a parameter in words.  If the parameter takes any number of arguments, an ellipsis
stands for the last pair of brackets.
-/
def typeName (qualified variadic : Bool) (t : JavaType) : Text :=
  let name := t.javaName qualified
  if variadic && name.endsIn "[]" then name.dropEnd 2 ++ "..." else name

/-- The types of the parameters in words.  Only the last one can take any number of arguments. -/
def typeNames (qualified variadic : Bool) (types : List JavaType) : List Text :=
  types.mapIdx fun i t => typeName qualified (variadic && i + 1 == types.length) t

/-- A parameter: its type, and its name if that is known and not empty. -/
def parameterText (type : Text) : Option Text → Text
  | none | some [] => type
  | some name => type ++ " " ++ name

/-- The method by the given name, with its parameters in parentheses. -/
def display (m : Method) (pool : ConstantPool) (name : Text) (qualified : Bool) :
    Except Fault Text := do
  let types := typeNames qualified m.isVariadic (← m.type pool).parameters
  let names ← m.parameterNames pool
  return .concat [name, "(", .join ", " (types.zipWith parameterText names), ")"]

end Method

end ClassFormat
