/-
The grammars of descriptors and of signatures.

There are two grammars.  That of descriptors knows primitive types, classes without type arguments
and arrays of them.  That of signatures knows type variables, type arguments, nested segments and
type parameters besides.  A type argument holds types again; `argumentWithin` bounds how deep that
may go, and the length of the text is bound enough, because an argument stands between brackets
that belong to the type around it.

A name is always the longest run of code points that can be part of one.  A type parameter
therefore begins where a name is directly followed by a colon, whatever letters it begins with.
-/
import ClassFormat.Fault
import ClassFormat.Signature.Parser

namespace ClassFormat

namespace Descriptor

open ClassFormat.Parser

/-- The package and the name of a class. -/
def binaryName : Parser (List Text × Text) := do
  let first ← name
  let more ← following '/' name
  return ((first :: more).dropLast, more.getLastD first)

/-- A type other than an array. -/
def elementType : Parser ElementType := do
  match ← next with
  | .scalar 'L' =>
    let (package, simple) ← binaryName
    symbol ';'
    return .object ⟨package, ⟨simple, []⟩, []⟩
  | p => return .primitive (← Primitive.ofLetter? p)

/-- Any type. -/
def javaType : Parser JavaType := do
  let brackets ← following '[' (pure ())
  return ⟨← elementType, brackets.length⟩

/-- A type, or the letter for no value at all. -/
def returnType : Parser ReturnType := do
  if (← peek) = some (.scalar 'V') then
    symbol 'V'
    return .void
  else return .value (← javaType)

/-- The parameters and the result of a method. -/
def methodType : Parser MethodType := do
  symbol '('
  let parameters ← untilSymbol ')' javaType
  return ⟨[], parameters, ← returnType, []⟩

end Descriptor

namespace Signature

open ClassFormat.Parser

/-- Type arguments between brackets, at least one; or none at all and no brackets. -/
def arguments (argument : Parser TypeArgument) : Parser (List TypeArgument) := do
  if (← peek) = some (.scalar '<') then
    symbol '<'
    let found ← untilSymbol '>' argument
    guard !found.isEmpty
    return found
  else return []

/-- One class nested in another. -/
def segment (argument : Parser TypeArgument) : Parser ClassSegment := do
  return ⟨← name, ← arguments argument⟩

/-- A class type after its first letter. -/
def classBody (argument : Parser TypeArgument) : Parser ClassType := do
  let (package, simple) ← Descriptor.binaryName
  let outer := ⟨simple, ← arguments argument⟩
  let inner ← following '.' (segment argument)
  symbol ';'
  return ⟨package, outer, inner⟩

/-- A type other than an array. -/
def elementType (argument : Parser TypeArgument) : Parser ElementType := do
  match ← next with
  | .scalar 'L' => return .object (← classBody argument)
  | .scalar 'T' =>
    let n ← name
    symbol ';'
    return .variable n
  | p => return .primitive (← Primitive.ofLetter? p)

/-- Any type. -/
def typeWith (argument : Parser TypeArgument) : Parser JavaType := do
  let brackets ← following '[' (pure ())
  return ⟨← elementType argument, brackets.length⟩

/-- Any type that is not primitive. -/
def referenceWith (argument : Parser TypeArgument) : Parser JavaType := do
  let t ← typeWith argument
  guard t.isReference
  return t

/-- A type argument, whose own type arguments are read by the given parser. -/
def argumentWith (argument : Parser TypeArgument) : Parser TypeArgument := do
  match ← peek with
  | some (.scalar '*') =>
    symbol '*'
    return .any
  | some (.scalar '+') =>
    symbol '+'
    return .bounded .covariant (← referenceWith argument)
  | some (.scalar '-') =>
    symbol '-'
    return .bounded .contravariant (← referenceWith argument)
  | _ => return .bounded .exact (← referenceWith argument)

/-- A type argument in which arguments nest no deeper than a given bound. -/
def argumentWithin : Nat → Parser TypeArgument
  | 0 => failure
  | depth + 1 => argumentWith (argumentWithin depth)

/-- A type argument. -/
def argument : Parser TypeArgument :=
  fun t => argumentWithin t.length t

/-- Any type. -/
def javaType : Parser JavaType :=
  typeWith argument

/-- Any type that is not primitive. -/
def referenceType : Parser JavaType :=
  referenceWith argument

/-- A type parameter with its bounds, of which there must be at least one. -/
def typeParameter : Parser TypeParameter := do
  let n ← name
  symbol ':'
  if (← peek) = some (.scalar ':') then
    return ⟨n, none, ← following ':' referenceType⟩
  else
    let bound ← referenceType
    return ⟨n, some bound, ← following ':' referenceType⟩

/-- Type parameters between brackets, at least one; or none at all and no brackets. -/
def typeParameters : Parser (List TypeParameter) := do
  if (← peek) = some (.scalar '<') then
    symbol '<'
    let found ← untilSymbol '>' typeParameter
    guard !found.isEmpty
    return found
  else return []

/-- A type, or the letter for no value at all. -/
def returnType : Parser ReturnType := do
  if (← peek) = some (.scalar 'V') then
    symbol 'V'
    return .void
  else return .value (← javaType)

/-- What a method may throw: a class or a type variable. -/
def thrownType : Parser JavaType := do
  match ← elementType argument with
  | .primitive _ => failure
  | e => return .ofElement e

/-- The types of a method. -/
def methodType : Parser MethodType := do
  let parameters ← typeParameters
  symbol '('
  let types ← untilSymbol ')' javaType
  let result ← returnType
  return ⟨parameters, types, result, ← following '^' thrownType⟩

/-- The generic declaration of a class. -/
def classSignature : Parser ClassSignature := do
  let parameters ← typeParameters
  match ← following 'L' (classBody argument) with
  | [] => failure
  | superclass :: interfaces => return ⟨parameters, superclass, interfaces⟩

end Signature

/-- The text is refused as a whole if the parser does not use all of it up. -/
def SignatureForm.read {α : Type} (form : SignatureForm) (parser : Parser α) (t : Text) :
    Except Fault α :=
  match parser.readAll t with
  | some a => .ok a
  | none => .error (.unplaced (.malformed form t))

/-- The type that a field descriptor describes. -/
def readFieldDescriptor : Text → Except Fault JavaType :=
  SignatureForm.read .fieldDescriptor Descriptor.javaType

/-- The types that a method descriptor describes. -/
def readMethodDescriptor : Text → Except Fault MethodType :=
  SignatureForm.read .methodDescriptor Descriptor.methodType

/-- The declaration that a class signature describes. -/
def readClassSignature : Text → Except Fault ClassSignature :=
  SignatureForm.read .classSignature Signature.classSignature

/-- The types that a method signature describes. -/
def readMethodSignature : Text → Except Fault MethodType :=
  SignatureForm.read .methodSignature Signature.methodType

/-- The type that a field signature describes. -/
def readFieldSignature : Text → Except Fault JavaType :=
  SignatureForm.read .fieldSignature Signature.referenceType

end ClassFormat
