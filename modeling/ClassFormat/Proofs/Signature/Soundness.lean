/-
What well-formed types print is in the grammar.

There is one lemma for each rule: the parts of a type print to texts of their rules, and
so the type prints to a text of its own.  A type argument holds types again; the lemmas
about a single level take as given that the arguments print to texts of their rule, and
the induction is on how deep arguments nest.
-/
import ClassFormat.Proofs.Signature.Derivation
import ClassFormat.Proofs.Signature.Notation

namespace ClassFormat

open DescriptorRule Production

/-! ### Repetitions -/

namespace Production.Derives

variable {N α : Type} {rules : N → Production N} {p : Production N} {print : α → Text}
  {as : List α}

theorem many_flatMap (h : ∀ a ∈ as, Derives rules p (print a)) :
    Derives rules p.many (as.flatMap print) := by
  rw [List.flatMap_def]
  exact .many (List.forall_mem_map.mpr h)

theorem many1_flatMap (hne : as ≠ []) (h : ∀ a ∈ as, Derives rules p (print a)) :
    Derives rules p.many1 (as.flatMap print) := by
  rw [List.flatMap_def]
  exact .many1 (fun hnil => hne (List.map_eq_nil_iff.mp hnil)) (List.forall_mem_map.mpr h)

/-- Items between brackets, at least one, or nothing at all. -/
theorem bracketed {item list : N} (h : ∀ a ∈ as, Derives rules (.rule item) (print a))
    (hlist : rules list = .letter '<' ++ Production.many1 (.rule item) ++ .letter '>') :
    Derives rules (opt (.rule list)) (Text.bracketed print as) := by
  cases as with
  | nil => exact .absent
  | cons a as =>
      have hitems := many1_flatMap (List.cons_ne_nil a as) h
      refine .present (.rule ?_)
      rw [hlist]
      exact .seq (.seq (.letter '<') hitems) (.letter '>')

end Production.Derives

/-! ### Names and letters -/

theorem Text.IsName.derives {n : Text} (h : n.IsName) :
    Derives DescriptorRule.production identifier n :=
  .run h.1 h.2

theorem Primitive.spells (type : Primitive) : Spells .baseType [.scalar type.letter] :=
  .rule (.oneOf (by cases type <;> decide))

theorem spells_binaryName {package : List Text} {simple : Text}
    (hpackage : ∀ n ∈ package, n.IsName) (hsimple : simple.IsName) :
    Spells .binaryName (package.flatMap (· ++ [CodePoint.scalar '/']) ++ simple) := by
  obtain ⟨first, more, hnames, htext⟩ := Text.exists_names package simple
  have hall : ∀ n ∈ first :: more, n.IsName := by
    rw [← hnames]
    exact List.forall_mem_append.mpr ⟨hpackage, List.forall_mem_singleton.mpr hsimple⟩
  obtain ⟨hfirst, hrest⟩ := List.forall_mem_cons.mp hall
  have hmore : Derives DescriptorRule.production (many (letter '/' ++ identifier))
      (more.flatMap fun n => [CodePoint.scalar '/'] ++ n) :=
    .many_flatMap fun n hn => .seq (.letter '/') (hrest n hn).derives
  rw [htext]
  exact .rule (.seq hfirst.derives hmore)

/-! ### One level of a type -/

section Level

variable {ok : TypeArgument → Prop} (hok : ∀ a, ok a → Spells .typeArgument a.print)
include hok

theorem ClassSegment.WellFormedWith.derives {s : ClassSegment} (h : s.WellFormedWith ok) :
    Derives production (identifier ++ opt (.rule typeArguments)) s.print := by
  rw [s.print_eq]
  exact .seq h.1.derives (.bracketed (fun a ha => hok a (h.2 a ha)) rfl)

theorem ClassType.WellFormedWith.spells {c : ClassType} (h : c.WellFormedWith ok) :
    Spells .classTypeSignature c.print := by
  have hname := spells_binaryName h.package h.outer.1
  have harguments : Derives production (opt (.rule .typeArguments))
      (Text.bracketed TypeArgument.print c.outer.arguments) :=
    .bracketed (fun a ha => hok a (h.outer.2 a ha)) rfl
  have hinner : Derives production (many (.rule .innerClassSuffix))
      (c.inner.flatMap fun s => [CodePoint.scalar '.'] ++ s.print) :=
    .many_flatMap fun s hs => .rule (.seq (.letter '.') ((h.inner s hs).derives hok))
  have hclass : Spells .classTypeSignature _ :=
    .rule (.seq (.seq (.seq (.seq (.letter 'L') hname) harguments) hinner) (.letter ';'))
  rw [c.print_eq, ClassType.printBody]
  simpa using hclass

theorem ElementType.WellFormedWith.spells {e : ElementType} (h : e.WellFormedWith ok)
    (href : (JavaType.ofElement e).isReference = true) :
    Spells .referenceTypeSignature e.print := by
  match e with
  | .primitive type => cases href
  | .variable n =>
      have hvariable : Spells .typeVariableSignature (ElementType.print (.variable n)) :=
        .rule (.seq (.seq (.letter 'T') (Text.IsName.derives h)) (.letter ';'))
      exact .rule (.left (.right hvariable))
  | .object c => exact .rule (.left (.left (ClassType.WellFormedWith.spells hok h)))

theorem JavaType.spells_of_wellFormedWith {t : JavaType} (h : t.element.WellFormedWith ok) :
    Spells .javaTypeSignature t.print := by
  obtain ⟨e, n⟩ := t
  induction n with
  | zero =>
      cases e with
      | primitive type => exact .rule (.left type.spells)
      | _ => exact .rule (.right (ElementType.WellFormedWith.spells hok h rfl))
  | succ n ih =>
      rw [print_succ]
      exact .rule (.right (.rule (.right (.rule (.seq (.letter '[') (ih h))))))

/-- A type that is not primitive is an array or has an element type that is not. -/
theorem JavaType.spells_reference {t : JavaType} (h : t.element.WellFormedWith ok)
    (href : t.isReference = true) : Spells .referenceTypeSignature t.print := by
  obtain ⟨e, n⟩ := t
  cases n with
  | zero => exact ElementType.WellFormedWith.spells hok h href
  | succ n =>
      have helement := JavaType.spells_of_wellFormedWith hok (t := ⟨e, n⟩) h
      rw [print_succ]
      exact .rule (.right (.rule (.seq (.letter '[') helement)))

theorem TypeArgument.WellFormedWith.spells {a : TypeArgument} (h : a.WellFormedWith ok) :
    Spells .typeArgument a.print := by
  match a with
  | .any => exact .rule (.right (.letter '*'))
  | .bounded v t =>
      have htype := JavaType.spells_reference hok h.2 h.1
      have hsign : Derives production (opt (.oneOf ['+', '-'])) v.sign := by
        cases v with
        | exact => exact .absent
        | _ => exact .present (.oneOf (by decide))
      exact .rule (.left (.seq hsign htype))

end Level

/-! ### Types of any depth -/

theorem TypeArgument.WellFormedWithin.spells {n : Nat} {a : TypeArgument}
    (h : WellFormedWithin n a) : Spells .typeArgument a.print := by
  induction n generalizing a with
  | zero => exact absurd h id
  | succ n ih => exact TypeArgument.WellFormedWith.spells (fun b hb => ih hb) h

theorem TypeArgument.WellFormed.spells (a : TypeArgument) (h : a.WellFormed) :
    Spells .typeArgument a.print :=
  (h.within (Nat.le_refl _)).spells

theorem ClassType.WellFormed.spells {c : ClassType} (h : c.WellFormed) :
    Spells .classTypeSignature c.print :=
  (c.wellFormed_iff.mp h).spells TypeArgument.WellFormed.spells

theorem JavaType.WellFormed.spells {t : JavaType} (h : t.WellFormed) :
    Spells .javaTypeSignature t.print :=
  t.spells_of_wellFormedWith TypeArgument.WellFormed.spells (t.wellFormed_iff.mp h)

theorem JavaType.WellFormed.spells_reference {t : JavaType} (h : t.WellFormed)
    (href : t.isReference = true) : Spells .referenceTypeSignature t.print :=
  JavaType.spells_reference TypeArgument.WellFormed.spells (t.wellFormed_iff.mp h) href

/-! ### What stands around types -/

theorem ReturnType.WellFormed.spells {r : ReturnType} (h : r.WellFormed) :
    Spells .resultSignature r.print := by
  cases r with
  | void => exact .rule (.right (.rule (.letter 'V')))
  | value t => exact .rule (.left (JavaType.WellFormed.spells h))

theorem TypeParameter.WellFormed.spells {p : TypeParameter} (h : p.WellFormed) :
    Spells .typeParameter p.print := by
  obtain ⟨n, classBound, bounds⟩ := p
  obtain ⟨hname, hne, hall⟩ := h
  have hbound : ∀ b : JavaType, b.isReference = true ∧ b.WellFormed →
      Spells .interfaceBound ([CodePoint.scalar ':'] ++ b.print) :=
    fun b hb => .rule (.seq (.letter ':') (hb.2.spells_reference hb.1))
  cases classBound with
  | none =>
      have hbounds := Derives.many1_flatMap hne fun b hb => hbound b (hall b hb)
      have hparameter : Spells .typeParameter _ :=
        .rule (.right (.seq (.seq hname.derives (.letter ':')) hbounds))
      simpa [TypeParameter.print, TypeParameter.bounds] using hparameter
  | some bound =>
      obtain ⟨hfirst, hrest⟩ : (bound.isReference = true ∧ bound.WellFormed) ∧
          ∀ b ∈ bounds, b.isReference = true ∧ b.WellFormed := List.forall_mem_cons.mp hall
      have hclass := hfirst.2.spells_reference hfirst.1
      have hbounds := Derives.many_flatMap fun b hb => hbound b (hrest b hb)
      have hparameter : Spells .typeParameter _ :=
        .rule (.left (.seq (.seq (.seq hname.derives (.letter ':')) hclass) hbounds))
      simpa [TypeParameter.print] using hparameter

theorem TypeParameter.derives_printAll {parameters : List TypeParameter}
    (h : ∀ p ∈ parameters, p.WellFormed) :
    Derives production (opt (.rule .typeParameters)) (printAll parameters) := by
  rw [TypeParameter.printAll_eq]
  exact .bracketed (fun p hp => (h p hp).spells) rfl

theorem JavaType.Throwable.spells {t : JavaType} (h : t.Throwable) :
    Spells .throwsSignature ([CodePoint.scalar '^'] ++ t.print) := by
  obtain ⟨e, n⟩ := t
  obtain ⟨rfl, href, hwell⟩ := h
  rw [print_zero]
  match e with
  | .primitive type => cases href
  | .variable n =>
      exact .rule (.right (.seq (.letter '^')
        (.rule (.seq (.seq (.letter 'T') (Text.IsName.derives hwell)) (.letter ';')))))
  | .object c => exact .rule (.left (.seq (.letter '^') (ClassType.WellFormed.spells hwell)))

theorem MethodType.WellFormed.spells {m : MethodType} (h : m.WellFormed) :
    Spells .methodSignature m.print := by
  have hgeneric := TypeParameter.derives_printAll h.typeParameters
  have hparameters := Derives.many_flatMap fun t ht => (h.parameters t ht).spells
  have hthrows := Derives.many_flatMap fun t ht => (h.throws t ht).spells
  have hmethod : Spells .methodSignature _ :=
    .rule (.seq (.seq (.seq (.seq (.seq hgeneric (.letter '(')) hparameters) (.letter ')'))
      h.result.spells) hthrows)
  simpa [MethodType.print] using hmethod

theorem ClassSignature.WellFormed.spells {c : ClassSignature} (h : c.WellFormed) :
    Spells .classSignature c.print := by
  have hgeneric := TypeParameter.derives_printAll h.typeParameters
  have hall : ∀ i ∈ c.superclass :: c.interfaces, i.WellFormed :=
    List.forall_mem_cons.mpr ⟨h.superclass, h.interfaces⟩
  have hclasses := Derives.many1_flatMap (List.cons_ne_nil _ _) fun i hi => (hall i hi).spells
  have hclass : Spells .classSignature _ := .rule (.seq hgeneric hclasses)
  simpa [ClassSignature.print] using hclass

/-! ### Descriptors -/

theorem JavaType.WellFormed.spells_fieldType {t : JavaType} (h : t.WellFormed)
    (hplain : t.IsPlain) : Spells .fieldType t.print := by
  obtain ⟨e, n⟩ := t
  induction n with
  | zero =>
      match e with
      | .primitive type => exact .rule (.left (.left type.spells))
      | .variable n => exact absurd hplain id
      | .object ⟨package, ⟨simple, arguments⟩, inner⟩ =>
          obtain ⟨rfl, rfl⟩ : arguments = [] ∧ inner = [] := hplain
          obtain ⟨hpackage, ⟨hsimple, -⟩, -⟩ := h
          have hobject : Spells .objectType _ :=
            .rule (.seq (.seq (.letter 'L') (spells_binaryName hpackage hsimple)) (.letter ';'))
          have htype : Spells .fieldType _ := .rule (.left (.right hobject))
          simpa [JavaType.print, ElementType.print, ClassType.print, ClassSegment.print,
            ClassSegment.printInner] using htype
  | succ n ih =>
      rw [print_succ]
      exact .rule (.right (.rule (.seq (.letter '[') (ih h hplain))))

theorem MethodType.WellFormed.spells_descriptor {m : MethodType} (h : m.WellFormed)
    (hplain : m.IsPlain) : Spells .methodDescriptor m.print := by
  obtain ⟨typeParameters, parameters, result, throws⟩ := m
  obtain ⟨rfl, hparameters, hresult, rfl⟩ := hplain
  have htypes := Derives.many_flatMap fun t ht =>
    (h.parameters t ht).spells_fieldType (hparameters t ht)
  have hreturn : Spells .returnDescriptor result.print := by
    cases result with
    | void => exact .rule (.right (.rule (.letter 'V')))
    | value t => exact .rule (.left (JavaType.WellFormed.spells_fieldType h.result hresult))
  have hmethod : Spells .methodDescriptor _ :=
    .rule (.seq (.seq (.seq (.letter '(') htypes) (.letter ')')) hreturn)
  simpa [MethodType.print, TypeParameter.printAll] using hmethod

/-- **What a well-formed tree prints can be derived from the rule of its form.** -/
theorem SignatureForm.WellFormed.derivable {form : SignatureForm} {tree : form.Tree}
    (h : form.WellFormed tree) : form.Derivable (form.print tree) := by
  cases form with
  | fieldDescriptor => exact .rule (JavaType.WellFormed.spells_fieldType h.1 h.2)
  | methodDescriptor => exact MethodType.WellFormed.spells_descriptor h.1 h.2
  | classSignature => exact ClassSignature.WellFormed.spells h
  | methodSignature => exact MethodType.WellFormed.spells h
  | fieldSignature => exact .rule (JavaType.WellFormed.spells_reference h.2 h.1)

end ClassFormat
