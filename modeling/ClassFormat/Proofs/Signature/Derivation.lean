/-
The grammars of descriptors and of signatures, as rules.

The readers follow these grammars without ever naming them.  Here they stand on their
own: productions are data, and `Derives` says which texts a production stands for,
whichever rules the names in it have.  A repetition stands for any number of texts in
a row, so no rule needs to be about lists.
-/
import ClassFormat.Signature.Basic

namespace ClassFormat

/-- What a rule stands for, in terms of the names of rules. -/
inductive Production (N : Type) where
  | empty
  /-- One of the given letters. -/
  | oneOf (letters : List Char)
  /-- One or more code points, none of them among the given letters. -/
  | run (excluded : List Char)
  | rule (name : N)
  | seq (first second : Production N)
  | alt (left right : Production N)
  | many (item : Production N)

namespace Production

variable {N : Type}

instance : Append (Production N) := ⟨seq⟩

instance : OrOp (Production N) := ⟨alt⟩

/-- One letter. -/
def letter (c : Char) : Production N :=
  .oneOf [c]

/-- The production or nothing. -/
def opt (item : Production N) : Production N :=
  item ||| .empty

/-- The production one or more times. -/
def many1 (item : Production N) : Production N :=
  item ++ item.many

/-- The texts of a production, given the rules. -/
inductive Derives (rules : N → Production N) : Production N → Text → Prop where
  | empty : Derives rules .empty []
  | oneOf {letters : List Char} {c : Char} (h : c ∈ letters) :
      Derives rules (.oneOf letters) [.scalar c]
  | run {excluded : List Char} {t : Text} (hne : t ≠ [])
      (h : ∀ p ∈ t, p ∉ excluded.map CodePoint.scalar) : Derives rules (.run excluded) t
  | rule {name : N} {t : Text} (h : Derives rules (rules name) t) :
      Derives rules (.rule name) t
  | seq {a b : Production N} {s t : Text} (ha : Derives rules a s) (hb : Derives rules b t) :
      Derives rules (.seq a b) (s ++ t)
  | left {a b : Production N} {t : Text} (h : Derives rules a t) : Derives rules (.alt a b) t
  | right {a b : Production N} {t : Text} (h : Derives rules b t) : Derives rules (.alt a b) t
  | many {a : Production N} {parts : List Text} (h : ∀ t ∈ parts, Derives rules a t) :
      Derives rules (.many a) parts.flatten

namespace Derives

variable {rules : N → Production N} {a b : Production N} {s t : Text}

theorem letter (c : Char) : Derives rules (.letter c) [.scalar c] :=
  .oneOf (List.mem_singleton.mpr rfl)

theorem absent : Derives rules a.opt [] :=
  .right .empty

theorem present (h : Derives rules a t) : Derives rules a.opt t :=
  .left h

/-- A repetition that is not empty. -/
theorem many1 {parts : List Text} (hne : parts ≠ []) (h : ∀ t ∈ parts, Derives rules a t) :
    Derives rules a.many1 parts.flatten := by
  cases parts with
  | nil => exact absurd rfl hne
  | cons t parts =>
      have hall := List.forall_mem_cons.mp h
      rw [List.flatten_cons]
      exact .seq hall.1 (.many hall.2)

end Derives

end Production

/-- The names of the rules. -/
inductive DescriptorRule where
  | fieldDescriptor
  | methodDescriptor
  | fieldType
  | objectType
  | arrayType
  | returnDescriptor
  | classSignature
  | methodSignature
  | fieldSignature
  | typeParameters
  | typeParameter
  | interfaceBound
  | javaTypeSignature
  | referenceTypeSignature
  | classTypeSignature
  | innerClassSuffix
  | typeVariableSignature
  | arrayTypeSignature
  | typeArguments
  | typeArgument
  | resultSignature
  | throwsSignature
  | baseType
  | voidType
  | binaryName

namespace DescriptorRule

open Production

/-- A name: one or more code points that have no other meaning in a descriptor. -/
def identifier : Production DescriptorRule :=
  .run ['.', ';', '[', '/', '<', '>', ':']

/-- The rules of both grammars. -/
def production : DescriptorRule → Production DescriptorRule
  | fieldDescriptor => .rule fieldType
  | methodDescriptor =>
    letter '(' ++ many (.rule fieldType) ++ letter ')' ++ .rule returnDescriptor
  | fieldType => .rule baseType ||| .rule objectType ||| .rule arrayType
  | objectType => letter 'L' ++ .rule binaryName ++ letter ';'
  | arrayType => letter '[' ++ .rule fieldType
  | returnDescriptor => .rule fieldType ||| .rule voidType
  | classSignature => opt (.rule typeParameters) ++ many1 (.rule classTypeSignature)
  | methodSignature =>
    opt (.rule typeParameters) ++ letter '(' ++ many (.rule javaTypeSignature) ++ letter ')' ++
      .rule resultSignature ++ many (.rule throwsSignature)
  | fieldSignature => .rule referenceTypeSignature
  | typeParameters => letter '<' ++ many1 (.rule typeParameter) ++ letter '>'
  | typeParameter =>
    identifier ++ letter ':' ++ .rule referenceTypeSignature ++ many (.rule interfaceBound) |||
      identifier ++ letter ':' ++ many1 (.rule interfaceBound)
  | interfaceBound => letter ':' ++ .rule referenceTypeSignature
  | javaTypeSignature => .rule baseType ||| .rule referenceTypeSignature
  | referenceTypeSignature =>
    .rule classTypeSignature ||| .rule typeVariableSignature ||| .rule arrayTypeSignature
  | classTypeSignature =>
    letter 'L' ++ .rule binaryName ++ opt (.rule typeArguments) ++
      many (.rule innerClassSuffix) ++ letter ';'
  | innerClassSuffix => letter '.' ++ (identifier ++ opt (.rule typeArguments))
  | typeVariableSignature => letter 'T' ++ identifier ++ letter ';'
  | arrayTypeSignature => letter '[' ++ .rule javaTypeSignature
  | typeArguments => letter '<' ++ many1 (.rule typeArgument) ++ letter '>'
  | typeArgument =>
    opt (.oneOf ['+', '-']) ++ .rule referenceTypeSignature ||| letter '*'
  | resultSignature => .rule javaTypeSignature ||| .rule voidType
  | throwsSignature =>
    letter '^' ++ .rule classTypeSignature ||| letter '^' ++ .rule typeVariableSignature
  | baseType => .oneOf ['B', 'C', 'D', 'F', 'I', 'J', 'S', 'Z']
  | voidType => letter 'V'
  | binaryName => identifier ++ many (letter '/' ++ identifier)

/-- The text is one of the rule. -/
def Spells (r : DescriptorRule) (t : Text) : Prop :=
  Derives production (.rule r) t

end DescriptorRule

namespace SignatureForm

/-- The rule that a form of text begins with. -/
def startRule : SignatureForm → DescriptorRule
  | fieldDescriptor => .fieldDescriptor
  | methodDescriptor => .methodDescriptor
  | classSignature => .classSignature
  | methodSignature => .methodSignature
  | fieldSignature => .fieldSignature

/-- The text can be derived from the rule of its form. -/
def Derivable (form : SignatureForm) (t : Text) : Prop :=
  form.startRule.Spells t

end SignatureForm

end ClassFormat
