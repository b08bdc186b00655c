/-
Types as they are written in source code.

A qualified name shows the package of every class, with periods between its names; an unqualified
one leaves the packages out.  Nested classes are joined by periods in both.
-/
import ClassFormat.Signature.Basic

namespace ClassFormat

namespace Variance

/-- The words that precede the type of a type argument. -/
def phrase : Variance → Text
  | exact => ""
  | covariant => "? extends "
  | contravariant => "? super "

end Variance

mutual

/-- An element type as written in source code. -/
def ElementType.javaName (qualified : Bool) : ElementType → Text
  | .primitive p => p.keyword
  | .variable n => n
  | .object c => c.javaName qualified

/-- A type as written in source code; a pair of brackets stands for each array dimension. -/
def JavaType.javaName (qualified : Bool) : JavaType → Text
  | ⟨e, n⟩ => e.javaName qualified ++ (List.replicate n (Text.ofString "[]")).flatten

/-- A class type as written in source code. -/
def ClassType.javaName (qualified : Bool) : ClassType → Text
  | ⟨package, outer, inner⟩ =>
    (if qualified then package.flatMap (· ++ [.scalar '.']) else [])
      ++ outer.javaName qualified ++ ClassSegment.javaNameInner qualified inner

/-- A segment as written in source code. -/
def ClassSegment.javaName (qualified : Bool) : ClassSegment → Text
  | ⟨name, []⟩ => name
  | ⟨name, a :: r⟩ =>
    name ++ .scalar '<' :: a.javaName qualified ++ TypeArgument.javaNameMore qualified r
      ++ [.scalar '>']

/-- A type argument as written in source code. -/
def TypeArgument.javaName (qualified : Bool) : TypeArgument → Text
  | .any => "?"
  | .bounded v t => v.phrase ++ t.javaName qualified

/-- The nested classes of a class type, each after a period. -/
def ClassSegment.javaNameInner (qualified : Bool) : List ClassSegment → Text
  | [] => []
  | s :: r => .scalar '.' :: s.javaName qualified ++ ClassSegment.javaNameInner qualified r

/-- Type arguments after the first, each after a comma. -/
def TypeArgument.javaNameMore (qualified : Bool) : List TypeArgument → Text
  | [] => []
  | a :: r => ", " ++ a.javaName qualified ++ TypeArgument.javaNameMore qualified r

end

/-- A return type as written in source code. -/
def ReturnType.javaName (qualified : Bool) : ReturnType → Text
  | void => "void"
  | value t => t.javaName qualified

/-- Whether the type is the root of the class hierarchy. -/
def JavaType.isRootClass (t : JavaType) : Bool :=
  match t with
  | ⟨.object c, 0⟩ => c.internalName == ("java/lang/Object" : Text)
  | _ => false

/-- A type parameter as written in source code.  A bound that every type meets is left out. -/
def TypeParameter.javaName (qualified : Bool) (p : TypeParameter) : Text :=
  match p.bounds.filter fun b => !b.isRootClass with
  | [] => p.name
  | bounds => .concat [p.name, " extends ", .join " & " (bounds.map (JavaType.javaName qualified))]

end ClassFormat
