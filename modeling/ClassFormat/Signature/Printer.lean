/-
Types in the notation of class files.

`print` is the concrete syntax of descriptors and signatures: `[I`, `Ljava/util/List<TT;>;`,
`<T:Ljava/lang/Object;>(TT;)V`.  One notation serves both, since a descriptor is a signature that
uses no generics.
-/
import ClassFormat.Signature.Basic

namespace ClassFormat

/-- The sign that precedes a type argument. -/
def Variance.sign : Variance → Text
  | exact => []
  | covariant => [.scalar '+']
  | contravariant => [.scalar '-']

mutual

/-- An element type in the notation of class files. -/
def ElementType.print : ElementType → Text
  | .primitive p => [.scalar p.letter]
  | .variable n => .scalar 'T' :: n ++ [.scalar ';']
  | .object c => c.print

/-- A type in the notation of class files: a bracket for each array dimension comes first. -/
def JavaType.print : JavaType → Text
  | ⟨e, n⟩ => List.replicate n (.scalar '[') ++ e.print

/-- A class type in the notation of class files. -/
def ClassType.print : ClassType → Text
  | ⟨package, outer, inner⟩ =>
    .scalar 'L' :: package.flatMap (· ++ [.scalar '/']) ++ outer.print
      ++ ClassSegment.printInner inner ++ [.scalar ';']

/-- A segment in the notation of class files; the brackets are there only around arguments. -/
def ClassSegment.print : ClassSegment → Text
  | ⟨name, []⟩ => name
  | ⟨name, a :: r⟩ =>
    name ++ .scalar '<' :: a.print ++ TypeArgument.printAll r ++ [.scalar '>']

/-- A type argument in the notation of class files. -/
def TypeArgument.print : TypeArgument → Text
  | .any => [.scalar '*']
  | .bounded v t => v.sign ++ t.print

/-- The nested classes of a class type, each after a period. -/
def ClassSegment.printInner : List ClassSegment → Text
  | [] => []
  | s :: r => .scalar '.' :: s.print ++ ClassSegment.printInner r

/-- Type arguments one after the other. -/
def TypeArgument.printAll : List TypeArgument → Text
  | [] => []
  | a :: r => a.print ++ TypeArgument.printAll r

end

/-- A return type in the notation of class files. -/
def ReturnType.print : ReturnType → Text
  | void => [.scalar 'V']
  | value t => t.print

/--
A type parameter in the notation of class files.  The place of the class bound stays empty if
there is none.
-/
def TypeParameter.print (p : TypeParameter) : Text :=
  p.name ++ .scalar ':' :: p.classBound.toList.flatMap JavaType.print
    ++ p.interfaceBounds.flatMap fun b => .scalar ':' :: b.print

/-- A list of type parameters in the notation of class files; an empty list leaves no trace. -/
def TypeParameter.printAll : List TypeParameter → Text
  | [] => []
  | p :: r => .scalar '<' :: p.print ++ r.flatMap TypeParameter.print ++ [.scalar '>']

/-- A method type in the notation of class files. -/
def MethodType.print (m : MethodType) : Text :=
  TypeParameter.printAll m.typeParameters ++ .scalar '(' :: m.parameters.flatMap JavaType.print
    ++ .scalar ')' :: m.result.print ++ m.throws.flatMap fun t => .scalar '^' :: t.print

/-- A class signature in the notation of class files. -/
def ClassSignature.print (c : ClassSignature) : Text :=
  TypeParameter.printAll c.typeParameters ++ c.superclass.print
    ++ c.interfaces.flatMap ClassType.print

end ClassFormat
