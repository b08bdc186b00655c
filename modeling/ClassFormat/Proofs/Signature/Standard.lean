/-
The grammars of the standard.

JVMS 4.3 gives the rules for descriptors and JVMS 4.7.9.1 those for signatures.  They
are written down here as they stand there, next to the rules that the readers follow.
Two things differ.  The class names in a descriptor consist of unqualified names, from
which fewer letters are excluded than from the identifiers in a signature; and all the
bounds of a type parameter may be left out.

To say something of all texts of a rule is to go down their derivations, which is done
once for all grammars: `Denotes` gives the meaning of a production from the meanings of
the rules that it names, and meanings that every rule keeps to are kept to by every
derivation.
-/
import ClassFormat.Proofs.Signature.Derivation

namespace ClassFormat

/-! ### The rules -/

/-- The names of the rules, as the standard has them. -/
inductive JvmsRule where
  | fieldDescriptor
  | fieldType
  | baseType
  | objectType
  | className
  | arrayType
  | componentType
  | methodDescriptor
  | parameterDescriptor
  | returnDescriptor
  | voidDescriptor
  | javaTypeSignature
  | referenceTypeSignature
  | classTypeSignature
  | packageSpecifier
  | simpleClassTypeSignature
  | typeArguments
  | typeArgument
  | wildcardIndicator
  | classTypeSignatureSuffix
  | typeVariableSignature
  | arrayTypeSignature
  | classSignature
  | typeParameters
  | typeParameter
  | classBound
  | interfaceBound
  | superclassSignature
  | superinterfaceSignature
  | methodSignature
  | result
  | throwsSignature
  | fieldSignature

namespace JvmsRule

open Production

/-- A name in a descriptor (JVMS 4.2.2). -/
def unqualifiedName : Production JvmsRule :=
  .run ['.', ';', '[', '/']

/-- A name in a signature. -/
def identifier : Production JvmsRule :=
  .run ['.', ';', '[', '/', '<', '>', ':']

/-- The rules of both grammars. -/
def production : JvmsRule → Production JvmsRule
  | fieldDescriptor => .rule fieldType
  | fieldType => .rule baseType ||| .rule objectType ||| .rule arrayType
  | baseType => .oneOf ['B', 'C', 'D', 'F', 'I', 'J', 'S', 'Z']
  | objectType => letter 'L' ++ .rule className ++ letter ';'
  | className => many (unqualifiedName ++ letter '/') ++ unqualifiedName
  | arrayType => letter '[' ++ .rule componentType
  | componentType => .rule fieldType
  | methodDescriptor =>
    letter '(' ++ many (.rule parameterDescriptor) ++ letter ')' ++ .rule returnDescriptor
  | parameterDescriptor => .rule fieldType
  | returnDescriptor => .rule fieldType ||| .rule voidDescriptor
  | voidDescriptor => letter 'V'
  | javaTypeSignature => .rule referenceTypeSignature ||| .rule baseType
  | referenceTypeSignature =>
    .rule classTypeSignature ||| .rule typeVariableSignature ||| .rule arrayTypeSignature
  | classTypeSignature =>
    letter 'L' ++ opt (.rule packageSpecifier) ++ .rule simpleClassTypeSignature ++
      many (.rule classTypeSignatureSuffix) ++ letter ';'
  | packageSpecifier => identifier ++ letter '/' ++ many (.rule packageSpecifier)
  | simpleClassTypeSignature => identifier ++ opt (.rule typeArguments)
  | typeArguments => letter '<' ++ many1 (.rule typeArgument) ++ letter '>'
  | typeArgument =>
    opt (.rule wildcardIndicator) ++ .rule referenceTypeSignature ||| letter '*'
  | wildcardIndicator => letter '+' ||| letter '-'
  | classTypeSignatureSuffix => letter '.' ++ .rule simpleClassTypeSignature
  | typeVariableSignature => letter 'T' ++ identifier ++ letter ';'
  | arrayTypeSignature => letter '[' ++ .rule javaTypeSignature
  | classSignature =>
    opt (.rule typeParameters) ++ .rule superclassSignature ++
      many (.rule superinterfaceSignature)
  | typeParameters => letter '<' ++ many1 (.rule typeParameter) ++ letter '>'
  | typeParameter => identifier ++ .rule classBound ++ many (.rule interfaceBound)
  | classBound => letter ':' ++ opt (.rule referenceTypeSignature)
  | interfaceBound => letter ':' ++ .rule referenceTypeSignature
  | superclassSignature => .rule classTypeSignature
  | superinterfaceSignature => .rule classTypeSignature
  | methodSignature =>
    opt (.rule typeParameters) ++ letter '(' ++ many (.rule javaTypeSignature) ++ letter ')' ++
      .rule result ++ many (.rule throwsSignature)
  | result => .rule javaTypeSignature ||| .rule voidDescriptor
  | throwsSignature =>
    letter '^' ++ .rule classTypeSignature ||| letter '^' ++ .rule typeVariableSignature
  | fieldSignature => .rule referenceTypeSignature

/-- The text is one of the rule. -/
def Spells (r : JvmsRule) (t : Text) : Prop :=
  Derives production (.rule r) t

variable {n t : Text}

/-- A class of the unnamed package in a descriptor. -/
theorem spells_fieldDescriptor (hn : Derives production unqualifiedName n) :
    Spells .fieldDescriptor ([CodePoint.scalar 'L'] ++ n ++ [CodePoint.scalar ';']) := by
  have hname : Spells .className ([].flatten ++ n) :=
    .rule (.seq (.many (List.forall_mem_nil _)) hn)
  have hobject : Spells .objectType ([CodePoint.scalar 'L'] ++ n ++ [CodePoint.scalar ';']) :=
    .rule (.seq (.seq (.letter 'L') hname) (.letter ';'))
  exact .rule (.rule (.left (.right hobject)))

theorem spells_packageSpecifier (hn : Derives production identifier n)
    (ht : Derives production (many (.rule .packageSpecifier)) t) :
    Spells .packageSpecifier (n ++ [CodePoint.scalar '/'] ++ t) :=
  .rule (.seq (.seq hn (.letter '/')) ht)

/-- A class without type arguments in a signature. -/
theorem spells_classTypeSignature (ht : Derives production (opt (.rule .packageSpecifier)) t)
    (hn : Derives production identifier n) :
    Spells .classTypeSignature ([CodePoint.scalar 'L'] ++ t ++ n ++ [CodePoint.scalar ';']) := by
  have hsimple : Spells .simpleClassTypeSignature (n ++ []) := .rule (.seq hn .absent)
  have hclass : Spells .classTypeSignature
      ([CodePoint.scalar 'L'] ++ t ++ (n ++ []) ++ [].flatten ++ [CodePoint.scalar ';']) :=
    .rule (.seq (.seq (.seq (.seq (.letter 'L') ht) hsimple)
      (.many (List.forall_mem_nil _))) (.letter ';'))
  simpa using hclass

/-- A type parameter with interface bounds only, between brackets. -/
theorem spells_typeParameters (hn : Derives production identifier n)
    (ht : Derives production (many (.rule .interfaceBound)) t) :
    Spells .typeParameters
      ([CodePoint.scalar '<'] ++ (n ++ [CodePoint.scalar ':'] ++ t) ++ [CodePoint.scalar '>']) := by
  have hbound : Spells .classBound ([CodePoint.scalar ':'] ++ []) :=
    .rule (.seq (.letter ':') .absent)
  have hparameter : Spells .typeParameter (n ++ [CodePoint.scalar ':'] ++ t) :=
    .rule (.seq (.seq hn hbound) ht)
  have hparameters : Spells .typeParameters
      ([CodePoint.scalar '<'] ++ (n ++ [CodePoint.scalar ':'] ++ t ++ [].flatten) ++
        [CodePoint.scalar '>']) :=
    .rule (.seq (.seq (.letter '<') (.seq hparameter (.many (List.forall_mem_nil _))))
      (.letter '>'))
  simpa using hparameters

end JvmsRule

namespace SignatureForm

/-- The rule of the standard for a form of text. -/
def standardRule : SignatureForm → JvmsRule
  | fieldDescriptor => .fieldDescriptor
  | methodDescriptor => .methodDescriptor
  | classSignature => .classSignature
  | methodSignature => .methodSignature
  | fieldSignature => .fieldSignature

/-- The standard has the text among those of the form. -/
def Standard (form : SignatureForm) (t : Text) : Prop :=
  form.standardRule.Spells t

end SignatureForm

/-! ### Meanings -/

namespace Production

variable {N : Type} {rules : N → Production N} {meaning : N → Text → Prop}
  {a b : Production N} {t : Text}

/-- The texts of a production if each name stands for the texts that it means. -/
def Denotes (meaning : N → Text → Prop) : Production N → Text → Prop
  | .empty => fun t => t = []
  | .oneOf letters => fun t => ∃ c ∈ letters, t = [.scalar c]
  | .run excluded => fun t => t ≠ [] ∧ ∀ p ∈ t, p ∉ excluded.map CodePoint.scalar
  | .rule name => meaning name
  | .seq a b => fun t => ∃ u v, Denotes meaning a u ∧ Denotes meaning b v ∧ u ++ v = t
  | .alt a b => fun t => Denotes meaning a t ∨ Denotes meaning b t
  | .many a => fun t => ∃ parts : List Text, (∀ u ∈ parts, Denotes meaning a u) ∧ parts.flatten = t

@[simp] theorem denotes_rule {name : N} : Denotes meaning (.rule name) t ↔ meaning name t :=
  Iff.rfl

@[simp] theorem denotes_append : Denotes meaning (a ++ b) t ↔
    ∃ u v, Denotes meaning a u ∧ Denotes meaning b v ∧ u ++ v = t :=
  Iff.rfl

@[simp] theorem denotes_or :
    Denotes meaning (a ||| b) t ↔ Denotes meaning a t ∨ Denotes meaning b t :=
  Iff.rfl

@[simp] theorem denotes_letter {c : Char} :
    Denotes meaning (letter c) t ↔ t = [.scalar c] := by
  simp [letter, Denotes]

@[simp] theorem denotes_opt : Denotes meaning (opt a) t ↔ Denotes meaning a t ∨ t = [] :=
  Iff.rfl

/-- **Meanings that every rule keeps to are kept to by every derivation.** -/
theorem Derives.denotes
    (hrules : ∀ name t, Denotes meaning (rules name) t → meaning name t)
    (h : Derives rules a t) : Denotes meaning a t := by
  induction h with
  | empty => rfl
  | oneOf hc => exact ⟨_, hc, rfl⟩
  | run hne hall => exact ⟨hne, hall⟩
  | rule _ ih => exact hrules _ _ ih
  | seq _ _ iha ihb => exact ⟨_, _, iha, ihb, rfl⟩
  | left _ ih => exact .inl ih
  | right _ ih => exact .inr ih
  | many _ ih => exact ⟨_, ih, rfl⟩

end Production

end ClassFormat
