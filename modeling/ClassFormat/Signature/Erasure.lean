/-
Erasure: the descriptor of a type once generics are gone.

Type arguments are dropped, nested classes take their joined names, and a type variable becomes
the root class whatever its bounds are, because a type on its own does not know where its
variables were declared.
-/
import ClassFormat.Signature.Basic

namespace ClassFormat

/-- The descriptor of an element type without generics. -/
def ElementType.erasure : ElementType → Text
  | .primitive p => [.scalar p.letter]
  | .variable _ => "Ljava/lang/Object;"
  | .object c => .scalar 'L' :: c.internalName ++ [.scalar ';']

/-- The descriptor of a type without generics. -/
def JavaType.erasure (t : JavaType) : Text :=
  List.replicate t.dimensions (.scalar '[') ++ t.element.erasure

/-- The descriptor of a return type without generics. -/
def ReturnType.erasure : ReturnType → Text
  | void => [.scalar 'V']
  | value t => t.erasure

/-- The descriptor of a method without generics. -/
def MethodType.erasure (m : MethodType) : Text :=
  .scalar '(' :: m.parameters.flatMap JavaType.erasure ++ .scalar ')' :: m.result.erasure

end ClassFormat
