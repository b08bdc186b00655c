/-
The types that descriptors and signatures speak of.

A `JavaType` is an element type with a number of array dimensions, so an array of arrays has one
representation only and no type is an array of zero dimensions in a second way.  `void` is not a
type but one of the two shapes of a `ReturnType`.  A class type is a package and a chain of
segments, each with its own type arguments; a plain descriptor is the special case of one segment
without arguments.  The package is held as its names and not as the one text that they are in a
class file; for well-formed types the two say the same.
-/
import ClassFormat.Text.Basic

namespace ClassFormat

/-- The five kinds of text that describe types. -/
inductive SignatureForm where
  | fieldDescriptor
  | methodDescriptor
  | classSignature
  | methodSignature
  | fieldSignature
  deriving DecidableEq, Repr

/-- The kind of text in words. -/
def SignatureForm.title : SignatureForm → String
  | fieldDescriptor => "field descriptor"
  | methodDescriptor => "method descriptor"
  | classSignature => "class signature"
  | methodSignature => "method signature"
  | fieldSignature => "field signature"

/-- The types of the numbers and of the truth values. -/
inductive Primitive where
  | byte
  | char
  | double
  | float
  | int
  | long
  | short
  | boolean
  deriving DecidableEq, Repr

namespace Primitive

/-- The letter that stands for the type in a descriptor. -/
def letter : Primitive → Char
  | byte => 'B'
  | char => 'C'
  | double => 'D'
  | float => 'F'
  | int => 'I'
  | long => 'J'
  | short => 'S'
  | boolean => 'Z'

/-- The keyword for the type. -/
def keyword : Primitive → String
  | byte => "byte"
  | char => "char"
  | double => "double"
  | float => "float"
  | int => "int"
  | long => "long"
  | short => "short"
  | boolean => "boolean"

/-- All eight types. -/
def all : List Primitive :=
  [byte, char, double, float, int, long, short, boolean]

/-- The type that a code point stands for in a descriptor. -/
def ofLetter? (p : CodePoint) : Option Primitive :=
  all.find? fun t => p = .scalar t.letter

theorem ofLetter?_letter (t : Primitive) : ofLetter? (.scalar t.letter) = some t := by
  cases t <;> decide

theorem ofLetter?_eq_some_iff {p : CodePoint} {t : Primitive} :
    ofLetter? p = some t ↔ p = .scalar t.letter := by
  refine ⟨fun h => by simpa using List.find?_some h, ?_⟩
  rintro rfl
  exact ofLetter?_letter t

end Primitive

/-- Which types a type argument admits, seen from the type it names. -/
inductive Variance where
  /-- that type alone -/
  | exact
  /-- that type and its subtypes -/
  | covariant
  /-- that type and its supertypes -/
  | contravariant
  deriving DecidableEq, Repr

mutual

/-- A type that is not an array. -/
inductive ElementType where
  | primitive (type : Primitive)
  | variable (name : Text)
  | object (type : ClassType)

/-- Any type of a value: an element type, and how many times it is wrapped in an array. -/
structure JavaType where
  element : ElementType
  dimensions : Nat

/-- A class by the names of its package, its outermost class and the classes nested in it. -/
structure ClassType where
  package : List Text
  outer : ClassSegment
  inner : List ClassSegment

/-- One class of a chain of nested classes, with its type arguments. -/
structure ClassSegment where
  name : Text
  arguments : List TypeArgument

/-- An argument for a type parameter; `any` leaves it open. -/
inductive TypeArgument where
  | any
  | bounded (variance : Variance) (type : JavaType)

end

/-- What a method gives back. -/
inductive ReturnType where
  | void
  | value (type : JavaType)

/-- A type parameter with its bounds. -/
structure TypeParameter where
  name : Text
  classBound : Option JavaType
  interfaceBounds : List JavaType

/-- The types of a method.  A plain descriptor gives parameters and result only. -/
structure MethodType where
  typeParameters : List TypeParameter
  parameters : List JavaType
  result : ReturnType
  throws : List JavaType

/-- The generic declaration of a class. -/
structure ClassSignature where
  typeParameters : List TypeParameter
  superclass : ClassType
  interfaces : List ClassType

namespace JavaType

/-- A type without array dimensions. -/
def ofElement (e : ElementType) : JavaType :=
  ⟨e, 0⟩

/-- Every type but the primitive ones; an array of primitives is a reference type. -/
def isReference (t : JavaType) : Bool :=
  match t.element with
  | .primitive _ => t.dimensions != 0
  | _ => true

end JavaType

namespace TypeParameter

/-- The class bound, if there is one, and then the interface bounds. -/
def bounds (p : TypeParameter) : List JavaType :=
  p.classBound.toList ++ p.interfaceBounds

end TypeParameter

namespace ClassType

/-- All segments from the outermost class to the innermost. -/
def segments (c : ClassType) : List ClassSegment :=
  c.outer :: c.inner

/-- The type arguments of the innermost class. -/
def arguments (c : ClassType) : List TypeArgument :=
  (c.inner.getLastD c.outer).arguments

/-- The package as it stands in a class file, with slashes between the names. -/
def packageName (c : ClassType) : Text :=
  .join "/" c.package

/--
The name of the class as it stands in a class file: type arguments are left out, and a dollar
sign joins a nested class to the one around it.
-/
def internalName (c : ClassType) : Text :=
  c.package.flatMap (· ++ [.scalar '/']) ++ c.outer.name
    ++ c.inner.flatMap fun s => .scalar '$' :: s.name

end ClassType

end ClassFormat
