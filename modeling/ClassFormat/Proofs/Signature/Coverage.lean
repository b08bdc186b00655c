/-
Which texts of the standard are accepted.

Of the field signatures all are.  A method or class signature is accepted exactly if
every type parameter in it has a bound: where a name and its colon are followed by the
next type parameter or by the end of the list, the reader looks for a type that is not
there.  A descriptor is accepted exactly if none of its names has a letter in it that
only signatures give a meaning to, since one kind of name serves both grammars.
-/
import ClassFormat.Proofs.Signature.Described
import ClassFormat.Proofs.Signature.RoundTrip

namespace ClassFormat

open ClassFormat.Parser

/-! ### Where names end -/

/-- What comes after the name at the front of a text. -/
def Text.nameEnd? (t : Text) : Option CodePoint :=
  (t.dropWhile isNamePart).head?

namespace Text

theorem IsName.nameEnd? {n rest : Text} (hn : n.IsName) :
    Text.nameEnd? (n ++ rest) = rest.nameEnd? := by
  unfold Text.nameEnd?
  rw [List.dropWhile_append_of_pos (isName_iff.mp hn).2]

theorem nameEnd?_cons {c : Char} {rest : Text} (hc : isNamePart (.scalar c) = false) :
    nameEnd? (.scalar c :: rest) = some (.scalar c) := by
  unfold nameEnd?
  rw [List.dropWhile_cons_of_neg (by simp [hc]), List.head?_cons]

end Text

/-- The name that a class type begins with ends at a symbol that no type parameter has there. -/
theorem ClassType.nameEnd?_print {c : ClassType} (h : c.WellFormed) (rest : Text) :
    ∃ s ∈ [';', '/', '<', '.'], Text.nameEnd? (c.print ++ rest) = some (.scalar s) := by
  obtain ⟨package, ⟨name, arguments⟩, inner⟩ := c
  obtain ⟨hpackage, ⟨hname, -⟩, -⟩ := h
  have hlead : Text.IsName [.scalar 'L'] := by decide
  have hprint : ClassType.print ⟨package, ⟨name, arguments⟩, inner⟩ ++ rest =
      [CodePoint.scalar 'L'] ++ (package.flatMap (· ++ [CodePoint.scalar '/']) ++ (name ++
        (Text.bracketed TypeArgument.print arguments ++
          ((inner.flatMap fun s => .scalar '.' :: s.print) ++ .scalar ';' :: rest)))) := by
    rw [ClassType.print_eq, ClassType.printBody]
    simp
  rw [hprint, hlead.nameEnd?]
  cases package with
  | cons n package =>
      have hn := hpackage n (List.mem_cons_self ..)
      refine ⟨'/', by decide, ?_⟩
      simp only [List.flatMap_cons, List.append_assoc, List.cons_append]
      rw [hn.nameEnd?, Text.nameEnd?_cons (by decide)]
  | nil =>
      rw [List.flatMap_nil, List.nil_append, hname.nameEnd?]
      cases arguments with
      | cons a arguments => exact ⟨'<', by decide, Text.nameEnd?_cons (by decide)⟩
      | nil =>
          cases inner with
          | cons s inner => exact ⟨'.', by decide, Text.nameEnd?_cons (by decide)⟩
          | nil => exact ⟨';', by decide, Text.nameEnd?_cons (by decide)⟩

theorem JavaType.nameEnd?_print {t : JavaType} (href : t.isReference = true)
    (h : t.WellFormed) (rest : Text) :
    ∃ s ∈ ['[', ';', '/', '<', '.'], Text.nameEnd? (t.print ++ rest) = some (.scalar s) := by
  obtain ⟨e, n⟩ := t
  cases n with
  | succ n => exact ⟨'[', by decide, Text.nameEnd?_cons (by decide)⟩
  | zero =>
      rw [JavaType.print_zero]
      match e with
      | .primitive type => cases href
      | .object c =>
          obtain ⟨s, hs, hend⟩ := ClassType.nameEnd?_print h rest
          exact ⟨s, List.mem_cons_of_mem _ hs, hend⟩
      | .variable n =>
          have hn : Text.IsName n := h
          have hlead : Text.IsName [.scalar 'T'] := by decide
          refine ⟨';', by decide, ?_⟩
          have hprint : (ElementType.variable n).print ++ rest =
              [CodePoint.scalar 'T'] ++ (n ++ (.scalar ';' :: rest)) := by
            simp [ElementType.print]
          rw [hprint, hlead.nameEnd?, hn.nameEnd?, Text.nameEnd?_cons (by decide)]

/-! ### Type parameters without bounds -/

namespace TypeParameter

variable {p q : TypeParameter} {ps qs : List TypeParameter} {rest rest' : Text}

/-- What follows a type parameter is not taken for one of its bounds. -/
theorem ends_of_legal (hps : ∀ p ∈ ps, p.Legal) (rest : Text) :
    Text.Ends (· = .scalar ':') (ps.flatMap print ++ .scalar '>' :: rest) := by
  cases ps with
  | nil => exact .cons (by decide)
  | cons p ps =>
      obtain ⟨c, u, hprint, hc⟩ := print_eq_cons (hps p (List.mem_cons_self ..)).name
      rw [List.flatMap_cons, hprint]
      refine .cons ?_
      rintro rfl
      exact absurd hc (by decide)

/-- What follows a type parameter is not taken for a type. -/
theorem nameEnd?_of_legal (hps : ∀ p ∈ ps, p.Legal) (rest : Text) :
    ∃ s ∈ ['>', ':'],
      Text.nameEnd? (ps.flatMap print ++ .scalar '>' :: rest) = some (.scalar s) := by
  cases ps with
  | nil => exact ⟨'>', by decide, Text.nameEnd?_cons (by decide)⟩
  | cons p ps =>
      have hname := (hps p (List.mem_cons_self ..)).name
      refine ⟨':', by decide, ?_⟩
      simp only [List.flatMap_cons, print, List.append_assoc, List.cons_append]
      rw [hname.nameEnd?, Text.nameEnd?_cons (by decide)]

/-- A type parameter that is read has a bound. -/
theorem bounds_ne_nil_of_print_eq (hp : p.Legal) (hps : ∀ p ∈ ps, p.Legal) (hq : q.WellFormed)
    (h : p.print ++ (ps.flatMap print ++ .scalar '>' :: rest) = q.print ++ rest') :
    p.bounds ≠ [] := by
  intro hnone
  obtain ⟨n, bound, bounds⟩ := p
  obtain ⟨hbound, rfl⟩ := List.append_eq_nil_iff.mp hnone
  obtain rfl : bound = none := by simpa using hbound
  obtain ⟨m, bound, bounds⟩ := q
  obtain ⟨hm, hne, hall⟩ := hq
  have hcolon : ∀ rest, Text.Ends (isNamePart · = true) (.scalar ':' :: rest) :=
    fun rest => .cons (by decide)
  simp only [print, Option.toList_none, List.flatMap_nil, List.append_nil, List.append_assoc,
    List.cons_append, List.nil_append] at h
  -- Both names end at the first colon.
  have hread := name_inverts.accepts _ hp.name (hcolon (ps.flatMap print ++ .scalar '>' :: rest))
  have hread' := name_inverts.accepts _ hm (hcolon (bound.toList.flatMap JavaType.print ++
    ((bounds.flatMap fun b => .scalar ':' :: b.print) ++ rest')))
  rw [id, h] at hread
  have hrest := congrArg List.tail (Prod.mk.inj (Option.some.inj (hread.symm.trans hread'))).2
  rw [List.tail_cons, List.tail_cons] at hrest
  cases bound with
  | some b =>
      obtain ⟨href, hwell⟩ := hall b (List.mem_cons_self ..)
      obtain ⟨s, hs, hend⟩ := nameEnd?_of_legal hps rest
      rw [hrest] at hend
      simp only [Option.toList_some, List.flatMap_cons, List.append_assoc] at hend
      obtain ⟨s', hs', hend'⟩ := b.nameEnd?_print href hwell _
      rw [hend', Option.some.injEq, CodePoint.scalar.injEq] at hend
      rw [hend] at hs'
      obtain rfl | rfl : s = '>' ∨ s = ':' := by simpa using hs
      · exact absurd hs' (by decide)
      · exact absurd hs' (by decide)
  | none =>
      obtain ⟨b, bounds, rfl⟩ := List.exists_cons_of_ne_nil hne
      have hends := ends_of_legal hps rest
      rw [hrest] at hends
      exact hends _ rfl rfl

/-- The same of all type parameters between two brackets. -/
theorem forall_bounds_ne_nil_of_print_eq (hps : ∀ p ∈ ps, p.Legal) (hqs : ∀ q ∈ qs, q.WellFormed)
    (h : ps.flatMap print ++ .scalar '>' :: rest = qs.flatMap print ++ .scalar '>' :: rest') :
    ∀ p ∈ ps, p.bounds ≠ [] := by
  induction ps generalizing qs with
  | nil => exact List.forall_mem_nil _
  | cons p ps ih =>
      obtain ⟨hp, hps⟩ := List.forall_mem_cons.mp hps
      cases qs with
      | nil =>
          obtain ⟨c, u, hprint, hc⟩ := print_eq_cons hp.name
          rw [List.flatMap_cons, hprint] at h
          obtain rfl := (List.cons.inj h).1
          exact absurd hc (by decide)
      | cons q qs =>
          obtain ⟨hq, hqs⟩ := List.forall_mem_cons.mp hqs
          rw [List.flatMap_cons, List.flatMap_cons, List.append_assoc, List.append_assoc] at h
          have hbounded := bounds_ne_nil_of_print_eq hp hps hq h
          -- Now both are read as the same type parameter, and the same text is left.
          have hlegal : ∀ q ∈ qs, q.Legal := fun q hq => ((wellFormed_iff q).mp (hqs q hq)).1
          have hread := Signature.typeParameter_inverts.accepts _
            ((wellFormed_iff p).mpr ⟨hp, hbounded⟩) (ends_of_legal hps rest)
          have hread' := Signature.typeParameter_inverts.accepts _ hq (ends_of_legal hlegal rest')
          rw [h, hread', Option.some.injEq, Prod.mk.injEq] at hread
          exact List.forall_mem_cons.mpr ⟨hbounded, ih hps hqs hread.2.symm⟩

/-- The same of type parameters that a text begins with. -/
theorem forall_bounds_ne_nil_of_printAll_eq (hps : ∀ p ∈ ps, p.Legal)
    (hqs : ∀ q ∈ qs, q.WellFormed) (hrest : Text.Ends (· = .scalar '<') rest')
    (h : printAll ps ++ rest = printAll qs ++ rest') : ∀ p ∈ ps, p.bounds ≠ [] := by
  rw [printAll_eq, printAll_eq] at h
  cases ps with
  | nil => exact List.forall_mem_nil _
  | cons p ps =>
      cases qs with
      | nil =>
          rw [Text.bracketed, Text.bracketed, List.nil_append] at h
          rw [← h] at hrest
          exact absurd rfl (hrest _ rfl)
      | cons q qs =>
          simp only [Text.bracketed, List.cons_append, List.append_assoc, List.cons.injEq,
            true_and, List.nil_append] at h
          exact forall_bounds_ne_nil_of_print_eq hps hqs h

end TypeParameter

/--
If the notation of a tree begins with its type parameters, and to be well formed is to be
legal and to have bounds, then legal trees are accepted exactly if they have bounds.
-/
theorem SignatureForm.accepts_print_iff (form : SignatureForm) {legal : form.Tree → Prop}
    {parameters : form.Tree → List TypeParameter}
    (hwell : ∀ tree, form.WellFormed tree ↔
      legal tree ∧ ∀ p ∈ parameters tree, p.bounds ≠ [])
    (hlegal : ∀ tree, legal tree → ∀ p ∈ parameters tree, p.Legal)
    (hprint : ∀ tree, ∃ rest, Text.Ends (· = .scalar '<') rest ∧
      form.print tree = TypeParameter.printAll (parameters tree) ++ rest)
    {tree : form.Tree} (h : legal tree) :
    form.Accepts (form.print tree) ↔ ∀ p ∈ parameters tree, p.bounds ≠ [] := by
  constructor
  · intro haccepts
    obtain ⟨tree', hwell', heq⟩ := accepts_iff_print.mp haccepts
    obtain ⟨rest, -, hrest⟩ := hprint tree
    obtain ⟨rest', hends, hrest'⟩ := hprint tree'
    obtain ⟨hlegal', hbounded'⟩ := (hwell tree').mp hwell'
    rw [hrest, hrest'] at heq
    exact TypeParameter.forall_bounds_ne_nil_of_printAll_eq (hlegal tree h)
      ((TypeParameter.forall_wellFormed_iff _).mpr ⟨hlegal tree' hlegal', hbounded'⟩) hends heq.symm
  · intro hbounded
    exact accepts_iff_print.mpr ⟨tree, (hwell tree).mpr ⟨h, hbounded⟩, rfl⟩

/-- A method signature of the standard is accepted exactly if all its parameters have bounds. -/
theorem MethodType.Legal.accepts_iff {m : MethodType} (h : m.Legal) :
    SignatureForm.methodSignature.Accepts m.print ↔ ∀ p ∈ m.typeParameters, p.bounds ≠ [] := by
  refine SignatureForm.accepts_print_iff .methodSignature wellFormed_iff
    (fun _ hm => hm.typeParameters) (fun m => ?_) h
  refine ⟨.scalar '(' :: (m.parameters.flatMap JavaType.print ++ .scalar ')' :: (m.result.print ++
    m.throws.flatMap fun t => .scalar '^' :: t.print)), .cons (by decide), ?_⟩
  show MethodType.print m = _
  simp [MethodType.print]

/-- A class signature of the standard is accepted exactly if all its parameters have bounds. -/
theorem ClassSignature.Legal.accepts_iff {c : ClassSignature} (h : c.Legal) :
    SignatureForm.classSignature.Accepts c.print ↔ ∀ p ∈ c.typeParameters, p.bounds ≠ [] := by
  refine SignatureForm.accepts_print_iff .classSignature wellFormed_iff
    (fun _ hc => hc.typeParameters) (fun c => ?_) h
  refine ⟨.scalar 'L' :: (c.superclass.printBody ++ c.interfaces.flatMap ClassType.print),
    .cons (by decide), ?_⟩
  show ClassSignature.print c = _
  simp [ClassSignature.print, c.superclass.print_eq]

/-! ### Descriptors -/

theorem Text.IsName.withoutGenerics {n : Text} (h : n.IsName) : n.WithoutGenerics :=
  fun p hp hmem => h.2 p hp (List.mem_append_right (['.', ';', '[', '/'].map CodePoint.scalar) hmem)

theorem Text.withoutGenerics_flatMap {α : Type} {print : α → Text} {as : List α}
    (h : ∀ a ∈ as, (print a).WithoutGenerics) : Text.WithoutGenerics (as.flatMap print) := by
  intro p hp
  obtain ⟨a, ha, hmem⟩ := List.mem_flatMap.mp hp
  exact h a ha p hmem

theorem JavaType.withoutGenerics_print {t : JavaType} (h : t.WellFormed) (hplain : t.IsPlain) :
    t.print.WithoutGenerics := by
  obtain ⟨e, n⟩ := t
  have hbrackets : Text.WithoutGenerics (List.replicate n (.scalar '[')) := by
    intro p hp
    rw [List.eq_of_mem_replicate hp]
    decide
  refine Text.withoutGenerics_append.mpr ⟨hbrackets, ?_⟩
  match e with
  | .primitive type => cases type <;> decide
  | .variable n => exact absurd hplain id
  | .object ⟨package, ⟨simple, arguments⟩, inner⟩ =>
      obtain ⟨rfl, rfl⟩ : arguments = [] ∧ inner = [] := hplain
      obtain ⟨hpackage, ⟨hsimple, -⟩, -⟩ := h
      have hprint : ElementType.print (.object ⟨package, ⟨simple, []⟩, []⟩) =
          [CodePoint.scalar 'L'] ++ package.flatMap (· ++ [CodePoint.scalar '/']) ++ simple ++
            [CodePoint.scalar ';'] := by
        simp [ElementType.print, ClassType.print, ClassSegment.print, ClassSegment.printInner]
      have hnames : Text.WithoutGenerics (package.flatMap (· ++ [CodePoint.scalar '/'])) :=
        Text.withoutGenerics_flatMap fun n hn =>
          Text.withoutGenerics_append.mpr ⟨(hpackage n hn).withoutGenerics, by decide⟩
      rw [hprint]
      simp only [Text.withoutGenerics_append]
      exact ⟨⟨⟨by decide, hnames⟩, hsimple.withoutGenerics⟩, by decide⟩

theorem MethodType.withoutGenerics_print {m : MethodType} (h : m.WellFormed) (hplain : m.IsPlain) :
    m.print.WithoutGenerics := by
  obtain ⟨typeParameters, parameters, result, throws⟩ := m
  obtain ⟨rfl, hparameters, hresult, rfl⟩ := hplain
  have hprint : MethodType.print ⟨[], parameters, result, []⟩ =
      [CodePoint.scalar '('] ++ parameters.flatMap JavaType.print ++ [CodePoint.scalar ')'] ++
        result.print := by
    simp [MethodType.print, TypeParameter.printAll]
  have htypes : Text.WithoutGenerics (parameters.flatMap JavaType.print) :=
    Text.withoutGenerics_flatMap fun t ht =>
      JavaType.withoutGenerics_print (h.parameters t ht) (hparameters t ht)
  have hreturn : result.print.WithoutGenerics := by
    cases result with
    | void => decide
    | value t => exact JavaType.withoutGenerics_print h.result hresult
  rw [hprint]
  simp only [Text.withoutGenerics_append]
  exact ⟨⟨⟨by decide, htypes⟩, by decide⟩, hreturn⟩

namespace SignatureForm

/-- The forms of text that are without generics. -/
def IsDescriptor (form : SignatureForm) : Prop :=
  form = fieldDescriptor ∨ form = methodDescriptor

/-- A descriptor of the standard is accepted exactly if no letter in it belongs to signatures. -/
theorem Standard.descriptor_accepts_iff {form : SignatureForm} {t : Text} (h : form.Standard t)
    (hform : form.IsDescriptor) : form.Accepts t ↔ t.WithoutGenerics := by
  constructor
  · intro haccepts
    obtain ⟨tree, hwell, rfl⟩ := accepts_iff_print.mp haccepts
    obtain rfl | rfl := hform
    · exact JavaType.withoutGenerics_print hwell.1 hwell.2
    · exact MethodType.withoutGenerics_print hwell.1 hwell.2
  · intro ht
    obtain rfl | rfl := hform
    · obtain ⟨type, hwell, rfl⟩ := h.meaning ht
      exact accepts_iff_print.mpr ⟨type, hwell, rfl⟩
    · obtain ⟨m, hwell, rfl⟩ := h.meaning ht
      exact accepts_iff_print.mpr ⟨m, hwell, rfl⟩

/-! ### All forms -/

/--
**Which texts of the standard are accepted.**  A descriptor is accepted unless there is
a letter in one of its names that belongs to signatures; a field signature always is; and
a method or class signature is accepted unless it has a type parameter without bounds.
-/
theorem standard_accepts_iff (t : Text) :
    (∀ form : SignatureForm, form.IsDescriptor → form.Standard t →
      (form.Accepts t ↔ t.WithoutGenerics)) ∧
    (fieldSignature.Standard t → fieldSignature.Accepts t) ∧
    (methodSignature.Standard t → ∃ m : MethodType, m.Legal ∧ m.print = t ∧
      (methodSignature.Accepts t ↔ ∀ p ∈ m.typeParameters, p.bounds ≠ [])) ∧
    (classSignature.Standard t → ∃ c : ClassSignature, c.Legal ∧ c.print = t ∧
      (classSignature.Accepts t ↔ ∀ p ∈ c.typeParameters, p.bounds ≠ [])) := by
  refine ⟨fun form hform h => h.descriptor_accepts_iff hform, ?_, ?_, ?_⟩
  · intro h
    obtain ⟨type, hwell, rfl⟩ := JvmsRule.Spells.meaning h
    exact accepts_iff_print.mpr ⟨type, hwell, rfl⟩
  · intro h
    obtain ⟨m, hlegal, rfl⟩ := JvmsRule.Spells.meaning h
    exact ⟨m, hlegal, rfl, hlegal.accepts_iff⟩
  · intro h
    obtain ⟨c, hlegal, rfl⟩ := JvmsRule.Spells.meaning h
    exact ⟨c, hlegal, rfl, hlegal.accepts_iff⟩

theorem standard_accepts_iff_bounded :
    fieldDescriptor.Standard "LA;" ∧ fieldDescriptor.Accepts "LA;" ∧
    fieldSignature.Standard "LA;" ∧ fieldSignature.Accepts "LA;" ∧
    methodSignature.Standard "<T::LA;>()V" ∧ (∃ m : MethodType, m.Legal ∧
      m.print = "<T::LA;>()V" ∧ (methodSignature.Accepts "<T::LA;>()V" ↔
        ∀ p ∈ m.typeParameters, p.bounds ≠ [])) ∧
    classSignature.Standard "<T::LA;>LA;" ∧ (∃ c : ClassSignature, c.Legal ∧
      c.print = "<T::LA;>LA;" ∧ (classSignature.Accepts "<T::LA;>LA;" ↔
        ∀ p ∈ c.typeParameters, p.bounds ≠ [])) := by
  have hdescriptor : fieldDescriptor.Standard "LA;" :=
    JvmsRule.spells_fieldDescriptor (n := "A") (.run (by decide) (by decide))
  have hclass : JvmsRule.Spells .classTypeSignature "LA;" :=
    JvmsRule.spells_classTypeSignature .absent (n := "A") (.run (by decide) (by decide))
  have hfield : fieldSignature.Standard "LA;" := .rule (.rule (.left (.left hclass)))
  have hbound : JvmsRule.Spells .interfaceBound ":LA;" :=
    .rule (.seq (.letter ':') (.rule (.left (.left hclass))))
  have hparameters : JvmsRule.Spells .typeParameters "<T::LA;>" :=
    JvmsRule.spells_typeParameters (n := "T") (t := [(":LA;" : Text)].flatten)
      (.run (by decide) (by decide)) (.many (List.forall_mem_singleton.mpr hbound))
  have hresult : JvmsRule.Spells .result "V" := .rule (.right (.rule (.letter 'V')))
  have hmethod : methodSignature.Standard "<T::LA;>()V" :=
    .rule (.seq (.seq (.seq (.seq (.seq (.present hparameters) (.letter '('))
      (.many (List.forall_mem_nil _))) (.letter ')')) hresult) (.many (List.forall_mem_nil _)))
  have hsuper : JvmsRule.Spells .superclassSignature "LA;" := .rule hclass
  have hdeclaration : classSignature.Standard "<T::LA;>LA;" :=
    .rule (.seq (.seq (.present hparameters) hsuper) (.many (List.forall_mem_nil _)))
  have haccepts : fieldDescriptor.Accepts "LA;" :=
    ((standard_accepts_iff "LA;").1 _ (.inl rfl) hdescriptor).mpr (by decide)
  exact ⟨hdescriptor, haccepts, hfield, (standard_accepts_iff "LA;").2.1 hfield,
    hmethod, (standard_accepts_iff "<T::LA;>()V").2.2.1 hmethod,
    hdeclaration, (standard_accepts_iff "<T::LA;>LA;").2.2.2 hdeclaration⟩

/-- Both ways in which a text of the standard can be refused do occur. -/
theorem standard_refused :
    classSignature.Standard "<T:>Ljava/lang/Object;" ∧
      ¬ classSignature.Accepts "<T:>Ljava/lang/Object;" ∧
    fieldDescriptor.Standard "La<b;" ∧ ¬ fieldDescriptor.Accepts "La<b;" := by
  have hlang : JvmsRule.Spells .packageSpecifier "lang/" :=
    JvmsRule.spells_packageSpecifier (n := "lang") (.run (by decide) (by decide))
      (.many (List.forall_mem_nil _))
  have hpackage : JvmsRule.Spells .packageSpecifier "java/lang/" :=
    JvmsRule.spells_packageSpecifier (n := "java") (.run (by decide) (by decide))
      (.many (List.forall_mem_singleton.mpr hlang))
  have hclass : JvmsRule.Spells .classTypeSignature "Ljava/lang/Object;" :=
    JvmsRule.spells_classTypeSignature (.present hpackage) (n := "Object")
      (.run (by decide) (by decide))
  have hparameters : JvmsRule.Spells .typeParameters "<T:>" :=
    JvmsRule.spells_typeParameters (n := "T") (.run (by decide) (by decide))
      (.many (List.forall_mem_nil _))
  have hsuper : JvmsRule.Spells .superclassSignature "Ljava/lang/Object;" := .rule hclass
  have hdeclaration : classSignature.Standard "<T:>Ljava/lang/Object;" :=
    .rule (.seq (.seq (.present hparameters) hsuper) (.many (List.forall_mem_nil _)))
  have hdescriptor : fieldDescriptor.Standard "La<b;" :=
    JvmsRule.spells_fieldDescriptor (n := "a<b") (.run (by decide) (by decide))
  exact ⟨hdeclaration, by decide +kernel, hdescriptor, by decide +kernel⟩

end SignatureForm

end ClassFormat
