/-
What the texts of the standard describe.

Every text that the standard has is the notation of a tree.  For a signature it is a
tree like those that are read, but that its type parameters may be without bounds.  For
a descriptor this holds of the texts without `<`, `>` and `:`, since these may be parts
of the names in a descriptor and are parts of no name in a tree.

`JvmsRule.Meaning` says this for each rule.  The induction over derivations is general;
what is shown here is that each rule puts the notation of a tree together from the
notations of its parts.
-/
import ClassFormat.Proofs.Signature.Notation
import ClassFormat.Proofs.Signature.Standard

namespace ClassFormat

open Production

/-! ### Trees of the standard -/

/-- A type parameter as the standard has it, which may be without bounds. -/
structure TypeParameter.Legal (p : TypeParameter) : Prop where
  name : p.name.IsName
  bounds : ∀ b ∈ p.bounds, b.isReference = true ∧ b.WellFormed

/-- The types of a method as the standard has them. -/
structure MethodType.Legal (m : MethodType) : Prop where
  typeParameters : ∀ p ∈ m.typeParameters, p.Legal
  parameters : ∀ t ∈ m.parameters, t.WellFormed
  result : m.result.WellFormed
  throws : ∀ t ∈ m.throws, t.Throwable

/-- The declaration of a class as the standard has it. -/
structure ClassSignature.Legal (c : ClassSignature) : Prop where
  typeParameters : ∀ p ∈ c.typeParameters, p.Legal
  superclass : c.superclass.WellFormed
  interfaces : ∀ i ∈ c.interfaces, i.WellFormed

theorem TypeParameter.wellFormed_iff (p : TypeParameter) :
    p.WellFormed ↔ p.Legal ∧ p.bounds ≠ [] :=
  ⟨fun ⟨h₁, h₂, h₃⟩ => ⟨⟨h₁, h₃⟩, h₂⟩, fun ⟨⟨h₁, h₃⟩, h₂⟩ => ⟨h₁, h₂, h₃⟩⟩

theorem TypeParameter.forall_wellFormed_iff (ps : List TypeParameter) :
    (∀ p ∈ ps, p.WellFormed) ↔ (∀ p ∈ ps, p.Legal) ∧ ∀ p ∈ ps, p.bounds ≠ [] := by
  have hall : (∀ p ∈ ps, p.WellFormed) ↔ ∀ p ∈ ps, p.Legal ∧ p.bounds ≠ [] :=
    forall₂_congr fun p _ => p.wellFormed_iff
  rw [hall]
  exact ⟨fun h => ⟨fun p hp => (h p hp).1, fun p hp => (h p hp).2⟩,
    fun h p hp => ⟨h.1 p hp, h.2 p hp⟩⟩

theorem MethodType.wellFormed_iff (m : MethodType) :
    m.WellFormed ↔ m.Legal ∧ ∀ p ∈ m.typeParameters, p.bounds ≠ [] := by
  have hgeneric := TypeParameter.forall_wellFormed_iff m.typeParameters
  constructor
  · rintro ⟨h₁, h₂, h₃, h₄⟩
    exact ⟨⟨(hgeneric.mp h₁).1, h₂, h₃, h₄⟩, (hgeneric.mp h₁).2⟩
  · rintro ⟨⟨h₁, h₂, h₃, h₄⟩, h⟩
    exact ⟨hgeneric.mpr ⟨h₁, h⟩, h₂, h₃, h₄⟩

theorem ClassSignature.wellFormed_iff (c : ClassSignature) :
    c.WellFormed ↔ c.Legal ∧ ∀ p ∈ c.typeParameters, p.bounds ≠ [] := by
  have hgeneric := TypeParameter.forall_wellFormed_iff c.typeParameters
  constructor
  · rintro ⟨h₁, h₂, h₃⟩
    exact ⟨⟨(hgeneric.mp h₁).1, h₂, h₃⟩, (hgeneric.mp h₁).2⟩
  · rintro ⟨⟨h₁, h₂, h₃⟩, h⟩
    exact ⟨hgeneric.mpr ⟨h₁, h⟩, h₂, h₃⟩

/-! ### Notations -/

/-- The text is the notation of a value that meets the condition. -/
def Text.Describes {α : Type} (ok : α → Prop) (print : α → Text) (t : Text) : Prop :=
  ∃ a, ok a ∧ print a = t

/-- None of the code points that only signatures give a meaning to. -/
def Text.WithoutGenerics (t : Text) : Prop :=
  ∀ p ∈ t, p ∉ ['<', '>', ':'].map CodePoint.scalar

instance : DecidablePred Text.WithoutGenerics := fun t =>
  inferInstanceAs (Decidable (∀ p ∈ t, _))

@[simp] theorem Text.withoutGenerics_append {u v : Text} :
    Text.WithoutGenerics (u ++ v) ↔ Text.WithoutGenerics u ∧ Text.WithoutGenerics v :=
  List.forall_mem_append

theorem Text.WithoutGenerics.of_mem {parts : List Text} (h : Text.WithoutGenerics parts.flatten)
    {u : Text} (hu : u ∈ parts) : u.WithoutGenerics :=
  fun p hp => h p (List.mem_flatten_of_mem hu hp)

theorem Text.isName_of_withoutGenerics {n : Text} (hne : n ≠ [])
    (h : ∀ p ∈ n, p ∉ ['.', ';', '[', '/'].map CodePoint.scalar) (hn : n.WithoutGenerics) :
    n.IsName := by
  refine ⟨hne, fun p hp hmem => ?_⟩
  have hmem' : p ∈ ['.', ';', '[', '/'].map CodePoint.scalar ++
      ['<', '>', ':'].map CodePoint.scalar := hmem
  exact (List.mem_append.mp hmem').elim (h p hp) (hn p hp)

/-- Notations in a row are the notation of a list. -/
theorem Text.describes_flatten {α : Type} {ok : α → Prop} {print : α → Text} {parts : List Text}
    (h : ∀ u ∈ parts, u.Describes ok print) :
    Text.Describes (fun as : List α => ∀ a ∈ as, ok a) (fun as => as.flatMap print)
      parts.flatten := by
  induction parts with
  | nil => exact ⟨[], List.forall_mem_nil _, rfl⟩
  | cons u parts ih =>
      obtain ⟨⟨a, ha, rfl⟩, hrest⟩ := List.forall_mem_cons.mp h
      obtain ⟨as, has, htext⟩ := ih hrest
      refine ⟨a :: as, List.forall_mem_cons.mpr ⟨ha, has⟩, ?_⟩
      rw [List.flatten_cons, ← htext]
      exact List.flatMap_cons

/-! ### The meanings of the rules -/

namespace JvmsRule

/-- A type that is not primitive. -/
def IsReferenceText (t : Text) : Prop :=
  t.Describes (fun type : JavaType => type.isReference = true ∧ type.WellFormed) JavaType.print

/-- A type without generics, unless there are code points that make the text a signature. -/
def IsPlainText (t : Text) : Prop :=
  t.WithoutGenerics →
    t.Describes (fun type : JavaType => type.WellFormed ∧ type.IsPlain) JavaType.print

/-- What the texts of a rule describe. -/
def Meaning : JvmsRule → Text → Prop
  | fieldDescriptor | fieldType | objectType | arrayType | componentType | parameterDescriptor =>
    IsPlainText
  | baseType => Text.Describes (fun _ : Primitive => True) fun type => [.scalar type.letter]
  | className => fun t =>
    t.WithoutGenerics →
      t.Describes (fun names : List Text × Text => (∀ n ∈ names.1, n.IsName) ∧ names.2.IsName)
        fun names => names.1.flatMap (· ++ [.scalar '/']) ++ names.2
  | methodDescriptor => fun t =>
    t.WithoutGenerics →
      t.Describes (fun m : MethodType => m.WellFormed ∧ m.IsPlain) MethodType.print
  | returnDescriptor => fun t =>
    t.WithoutGenerics →
      t.Describes (fun r : ReturnType => r.WellFormed ∧ r.IsPlain) ReturnType.print
  | voidDescriptor => fun t => t = [.scalar 'V']
  | javaTypeSignature => Text.Describes JavaType.WellFormed JavaType.print
  | referenceTypeSignature | arrayTypeSignature | fieldSignature => IsReferenceText
  | classTypeSignature | superclassSignature | superinterfaceSignature =>
    Text.Describes ClassType.WellFormed ClassType.print
  | packageSpecifier =>
    Text.Describes (fun names : List Text => ∀ n ∈ names, n.IsName)
      fun names => names.flatMap (· ++ [.scalar '/'])
  | simpleClassTypeSignature => Text.Describes ClassSegment.WellFormed ClassSegment.print
  | typeArguments =>
    Text.Describes (fun as : List TypeArgument => ∀ a ∈ as, a.WellFormed)
      (Text.bracketed TypeArgument.print)
  | typeArgument => Text.Describes TypeArgument.WellFormed TypeArgument.print
  | wildcardIndicator => Text.Describes (fun _ : Variance => True) Variance.sign
  | classTypeSignatureSuffix =>
    Text.Describes ClassSegment.WellFormed fun s => .scalar '.' :: s.print
  | typeVariableSignature =>
    Text.Describes Text.IsName fun n => (ElementType.variable n).print
  | classSignature => Text.Describes ClassSignature.Legal ClassSignature.print
  | typeParameters =>
    Text.Describes (fun ps : List TypeParameter => ∀ p ∈ ps, p.Legal)
      (Text.bracketed TypeParameter.print)
  | typeParameter => Text.Describes TypeParameter.Legal TypeParameter.print
  | classBound =>
    Text.Describes (fun bound : Option JavaType => ∀ b ∈ bound, b.isReference = true ∧ b.WellFormed)
      fun bound => .scalar ':' :: bound.toList.flatMap JavaType.print
  | interfaceBound =>
    Text.Describes (fun b : JavaType => b.isReference = true ∧ b.WellFormed)
      fun b => .scalar ':' :: b.print
  | methodSignature => Text.Describes MethodType.Legal MethodType.print
  | result => Text.Describes ReturnType.WellFormed ReturnType.print
  | throwsSignature => Text.Describes JavaType.Throwable fun t => .scalar '^' :: t.print

variable {t : Text}

section Lists

variable {α : Type} {ok : α → Prop} {print : α → Text} {name : JvmsRule}

theorem describes_many (hname : Meaning name = Text.Describes ok print)
    (h : Denotes Meaning (many (.rule name)) t) :
    t.Describes (fun as : List α => ∀ a ∈ as, ok a) fun as => as.flatMap print := by
  obtain ⟨parts, hparts, rfl⟩ := h
  refine Text.describes_flatten fun u hu => ?_
  rw [← hname]
  exact hparts u hu

/-- Items between brackets, at least one, are the notation of a list. -/
theorem describes_bracketed (hname : Meaning name = Text.Describes ok print)
    (h : Denotes Meaning (letter '<' ++ many1 (.rule name) ++ letter '>') t) :
    t.Describes (fun as => ∀ a ∈ as, ok a) (Text.bracketed print) := by
  simp only [denotes_append, denotes_letter, denotes_rule, many1, hname] at h
  obtain ⟨_, _, ⟨_, _, rfl, ⟨_, _, ⟨a, ha, rfl⟩, hmore, rfl⟩, rfl⟩, rfl, rfl⟩ := h
  obtain ⟨as, has, rfl⟩ := describes_many hname hmore
  refine ⟨a :: as, List.forall_mem_cons.mpr ⟨ha, has⟩, ?_⟩
  simp [Text.bracketed]

/-- A list between brackets that may be left out. -/
theorem describes_opt
    (hname : Meaning name = Text.Describes (fun as => ∀ a ∈ as, ok a) (Text.bracketed print))
    (h : Denotes Meaning (opt (.rule name)) t) :
    t.Describes (fun as => ∀ a ∈ as, ok a) (Text.bracketed print) := by
  obtain hlist | rfl := denotes_opt.mp h
  · rwa [← hname]
  · exact ⟨[], List.forall_mem_nil _, rfl⟩

end Lists

/-! #### Descriptors -/

theorem meaning_baseType (h : Denotes Meaning (production .baseType) t) : Meaning .baseType t := by
  obtain ⟨c, hc, rfl⟩ := h
  have hletter : ∃ type ∈ Primitive.all, c = type.letter := by
    simpa [Primitive.all, Primitive.letter] using hc
  obtain ⟨type, -, rfl⟩ := hletter
  exact ⟨type, trivial, rfl⟩

theorem meaning_className (h : Denotes Meaning (production .className) t) :
    Meaning .className t := by
  intro ht
  simp only [production, denotes_append] at h
  obtain ⟨_, simple, ⟨parts, hparts, rfl⟩, ⟨hne, hsimple⟩, rfl⟩ := h
  obtain ⟨hfront, hlast⟩ := Text.withoutGenerics_append.mp ht
  have hnames : ∀ u ∈ parts, u.Describes Text.IsName (· ++ [CodePoint.scalar '/']) := by
    intro u hu
    obtain ⟨n, _, ⟨hn, hall⟩, hslash, rfl⟩ := denotes_append.mp (hparts u hu)
    obtain rfl := denotes_letter.mp hslash
    have hplain := Text.withoutGenerics_append.mp (hfront.of_mem hu)
    exact ⟨n, Text.isName_of_withoutGenerics hn hall hplain.1, rfl⟩
  obtain ⟨package, hpackage, hprint⟩ := Text.describes_flatten hnames
  refine ⟨(package, simple), ⟨hpackage, Text.isName_of_withoutGenerics hne hsimple hlast⟩, ?_⟩
  rw [← hprint]

theorem meaning_objectType (h : Denotes Meaning (production .objectType) t) :
    Meaning .objectType t := by
  intro ht
  simp only [production, denotes_append, denotes_letter, denotes_rule] at h
  obtain ⟨_, _, ⟨_, n, rfl, hname, rfl⟩, rfl, rfl⟩ := h
  have hplain := Text.withoutGenerics_append.mp (Text.withoutGenerics_append.mp ht).1
  obtain ⟨⟨package, simple⟩, ⟨hpackage, hsimple⟩, rfl⟩ := hname hplain.2
  let c : ClassType := ⟨package, ⟨simple, []⟩, []⟩
  have hc : c.WellFormed := ⟨hpackage, ⟨hsimple, trivial⟩, trivial⟩
  refine ⟨.ofElement (.object c), ⟨hc, rfl, rfl⟩, ?_⟩
  simp [c, JavaType.ofElement, JavaType.print, ElementType.print, ClassType.print_eq,
    ClassType.printBody, Text.bracketed]

theorem meaning_arrayType (h : Denotes Meaning (production .arrayType) t) :
    Meaning .arrayType t := by
  intro ht
  simp only [production, denotes_append, denotes_letter, denotes_rule] at h
  obtain ⟨_, _, rfl, hitem, rfl⟩ := h
  obtain ⟨⟨e, n⟩, ⟨hwell, hplain⟩, rfl⟩ := hitem (Text.withoutGenerics_append.mp ht).2
  exact ⟨⟨e, n + 1⟩, ⟨hwell, hplain⟩, rfl⟩

theorem meaning_fieldType (h : Denotes Meaning (production .fieldType) t) :
    Meaning .fieldType t := by
  simp only [production, denotes_or, denotes_rule] at h
  obtain (⟨type, -, rfl⟩ | hobject) | harray := h
  · exact fun _ => ⟨.ofElement (.primitive type), ⟨trivial, trivial⟩, rfl⟩
  · exact hobject
  · exact harray

theorem meaning_returnDescriptor (h : Denotes Meaning (production .returnDescriptor) t) :
    Meaning .returnDescriptor t := by
  intro ht
  simp only [production, denotes_or, denotes_rule] at h
  obtain htype | rfl := h
  · obtain ⟨type, ⟨hwell, hplain⟩, rfl⟩ := htype ht
    exact ⟨.value type, ⟨hwell, hplain⟩, rfl⟩
  · exact ⟨.void, ⟨trivial, trivial⟩, rfl⟩

theorem meaning_methodDescriptor (h : Denotes Meaning (production .methodDescriptor) t) :
    Meaning .methodDescriptor t := by
  intro ht
  simp only [production, denotes_append, denotes_letter, denotes_rule] at h
  obtain ⟨_, _, ⟨_, _, ⟨_, _, rfl, ⟨parts, hparts, rfl⟩, rfl⟩, rfl, rfl⟩, hresult, rfl⟩ := h
  simp only [Text.withoutGenerics_append] at ht
  obtain ⟨⟨⟨-, hfront⟩, -⟩, hback⟩ := ht
  obtain ⟨types, htypes, hprint⟩ :=
    Text.describes_flatten fun u hu => hparts u hu (hfront.of_mem hu)
  obtain ⟨result, ⟨hwell, hplain⟩, rfl⟩ := hresult hback
  refine ⟨⟨[], types, result, []⟩, ⟨⟨List.forall_mem_nil _, fun t ht => (htypes t ht).1, hwell,
    List.forall_mem_nil _⟩, ⟨rfl, fun t ht => (htypes t ht).2, hplain, rfl⟩⟩, ?_⟩
  rw [← hprint]
  simp [MethodType.print, TypeParameter.printAll]

/-! #### Signatures -/

theorem meaning_javaTypeSignature (h : Denotes Meaning (production .javaTypeSignature) t) :
    Meaning .javaTypeSignature t := by
  simp only [production, denotes_or, denotes_rule] at h
  obtain ⟨type, ⟨-, htype⟩, rfl⟩ | ⟨type, -, rfl⟩ := h
  · exact ⟨type, htype, rfl⟩
  · exact ⟨.ofElement (.primitive type), trivial, rfl⟩

theorem meaning_referenceTypeSignature
    (h : Denotes Meaning (production .referenceTypeSignature) t) :
    Meaning .referenceTypeSignature t := by
  simp only [production, denotes_or, denotes_rule] at h
  obtain (⟨c, hc, rfl⟩ | ⟨n, hn, rfl⟩) | harray := h
  · exact ⟨.ofElement (.object c), ⟨rfl, hc⟩, rfl⟩
  · exact ⟨.ofElement (.variable n), ⟨rfl, hn⟩, rfl⟩
  · exact harray

theorem meaning_arrayTypeSignature (h : Denotes Meaning (production .arrayTypeSignature) t) :
    Meaning .arrayTypeSignature t := by
  simp only [production, denotes_append, denotes_letter, denotes_rule] at h
  obtain ⟨_, _, rfl, ⟨⟨e, n⟩, hwell, rfl⟩, rfl⟩ := h
  refine ⟨⟨e, n + 1⟩, ⟨?_, hwell⟩, rfl⟩
  cases e <;> simp [JavaType.isReference]

theorem meaning_packageSpecifier (h : Denotes Meaning (production .packageSpecifier) t) :
    Meaning .packageSpecifier t := by
  simp only [production, denotes_append, denotes_letter] at h
  obtain ⟨_, _, ⟨n, _, hn, rfl, rfl⟩, hmore, rfl⟩ := h
  obtain ⟨names, hnames, rfl⟩ := describes_many rfl hmore
  refine ⟨n :: names.flatMap id, List.forall_mem_cons.mpr ⟨hn, ?_⟩, ?_⟩
  · intro m hm
    obtain ⟨ns, hns, hmem⟩ := List.mem_flatMap.mp hm
    exact hnames ns hns m hmem
  · simp only [List.flatMap_cons, List.flatMap_assoc, id_eq]

theorem meaning_simpleClassTypeSignature
    (h : Denotes Meaning (production .simpleClassTypeSignature) t) :
    Meaning .simpleClassTypeSignature t := by
  obtain ⟨n, _, hn, harguments, rfl⟩ := denotes_append.mp h
  obtain ⟨as, has, rfl⟩ := describes_opt rfl harguments
  refine ⟨⟨n, as⟩, (ClassSegment.wellFormed_iff _).mpr ⟨hn, has⟩, ?_⟩
  rw [ClassSegment.print_eq]

theorem meaning_classTypeSignatureSuffix
    (h : Denotes Meaning (production .classTypeSignatureSuffix) t) :
    Meaning .classTypeSignatureSuffix t := by
  simp only [production, denotes_append, denotes_letter, denotes_rule] at h
  obtain ⟨_, _, rfl, ⟨s, hs, rfl⟩, rfl⟩ := h
  exact ⟨s, hs, rfl⟩

theorem meaning_classTypeSignature (h : Denotes Meaning (production .classTypeSignature) t) :
    Meaning .classTypeSignature t := by
  simp only [production, denotes_append, denotes_letter, denotes_rule, denotes_opt] at h
  obtain ⟨_, _, ⟨_, _, ⟨_, _, ⟨_, _, rfl, hpackage, rfl⟩, ⟨outer, houter, rfl⟩, rfl⟩,
    hinner, rfl⟩, rfl, rfl⟩ := h
  obtain ⟨package, hnames, rfl⟩ : Meaning .packageSpecifier _ := by
    obtain hnames | rfl := hpackage
    · exact hnames
    · exact ⟨[], List.forall_mem_nil _, rfl⟩
  obtain ⟨inner, hsegments, rfl⟩ := describes_many rfl hinner
  refine ⟨⟨package, outer, inner⟩,
    ⟨hnames, houter, (ClassSegment.wellFormedAll_iff inner).mpr hsegments⟩, ?_⟩
  simp [ClassType.print, ClassSegment.printInner_eq]

theorem meaning_typeVariableSignature
    (h : Denotes Meaning (production .typeVariableSignature) t) :
    Meaning .typeVariableSignature t := by
  simp only [production, denotes_append, denotes_letter] at h
  obtain ⟨_, _, ⟨_, n, rfl, hn, rfl⟩, rfl, rfl⟩ := h
  exact ⟨n, hn, rfl⟩

theorem meaning_wildcardIndicator (h : Denotes Meaning (production .wildcardIndicator) t) :
    Meaning .wildcardIndicator t := by
  simp only [production, denotes_or, denotes_letter] at h
  obtain rfl | rfl := h
  · exact ⟨.covariant, trivial, rfl⟩
  · exact ⟨.contravariant, trivial, rfl⟩

theorem meaning_typeArgument (h : Denotes Meaning (production .typeArgument) t) :
    Meaning .typeArgument t := by
  simp only [production, denotes_or, denotes_append, denotes_letter, denotes_rule,
    denotes_opt] at h
  obtain ⟨_, _, hsign, ⟨type, htype, rfl⟩, rfl⟩ | rfl := h
  · obtain ⟨v, -, rfl⟩ : Meaning .wildcardIndicator _ := by
      obtain hsign | rfl := hsign
      · exact hsign
      · exact ⟨.exact, trivial, rfl⟩
    exact ⟨.bounded v type, htype, rfl⟩
  · exact ⟨.any, trivial, rfl⟩

theorem meaning_classBound (h : Denotes Meaning (production .classBound) t) :
    Meaning .classBound t := by
  simp only [production, denotes_append, denotes_letter, denotes_rule, denotes_opt] at h
  obtain ⟨_, _, rfl, ⟨b, hb, rfl⟩ | rfl, rfl⟩ := h
  · exact ⟨some b, by simpa using hb, by simp⟩
  · exact ⟨none, by simp, rfl⟩

theorem meaning_interfaceBound (h : Denotes Meaning (production .interfaceBound) t) :
    Meaning .interfaceBound t := by
  simp only [production, denotes_append, denotes_letter, denotes_rule] at h
  obtain ⟨_, _, rfl, ⟨b, hb, rfl⟩, rfl⟩ := h
  exact ⟨b, hb, rfl⟩

theorem meaning_typeParameter (h : Denotes Meaning (production .typeParameter) t) :
    Meaning .typeParameter t := by
  simp only [production, denotes_append, denotes_rule] at h
  obtain ⟨_, _, ⟨n, _, hn, ⟨bound, hbound, rfl⟩, rfl⟩, hbounds, rfl⟩ := h
  obtain ⟨bounds, hall, rfl⟩ := describes_many rfl hbounds
  refine ⟨⟨n, bound, bounds⟩, ⟨hn, ?_⟩, rfl⟩
  refine List.forall_mem_append.mpr ⟨fun b hb => hbound b ?_, hall⟩
  exact Option.mem_toList.mp hb

theorem meaning_methodSignature (h : Denotes Meaning (production .methodSignature) t) :
    Meaning .methodSignature t := by
  simp only [production, denotes_append, denotes_letter, denotes_rule] at h
  obtain ⟨_, _, ⟨_, _, ⟨_, _, ⟨_, _, ⟨_, _, hgeneric, rfl, rfl⟩, hparameters, rfl⟩, rfl, rfl⟩,
    ⟨result, hresult, rfl⟩, rfl⟩, hthrows, rfl⟩ := h
  obtain ⟨ps, hps, rfl⟩ := describes_opt rfl hgeneric
  obtain ⟨types, htypes, rfl⟩ := describes_many rfl hparameters
  obtain ⟨throws, hthrown, rfl⟩ := describes_many rfl hthrows
  refine ⟨⟨ps, types, result, throws⟩, ⟨hps, htypes, hresult, hthrown⟩, ?_⟩
  simp [MethodType.print, TypeParameter.printAll_eq]

theorem meaning_result (h : Denotes Meaning (production .result) t) : Meaning .result t := by
  simp only [production, denotes_or, denotes_rule] at h
  obtain ⟨type, htype, rfl⟩ | rfl := h
  · exact ⟨.value type, htype, rfl⟩
  · exact ⟨.void, trivial, rfl⟩

theorem meaning_throwsSignature (h : Denotes Meaning (production .throwsSignature) t) :
    Meaning .throwsSignature t := by
  simp only [production, denotes_or, denotes_append, denotes_letter, denotes_rule] at h
  obtain ⟨_, _, rfl, ⟨c, hc, rfl⟩, rfl⟩ | ⟨_, _, rfl, ⟨n, hn, rfl⟩, rfl⟩ := h
  · exact ⟨.ofElement (.object c), ⟨rfl, rfl, hc⟩, rfl⟩
  · exact ⟨.ofElement (.variable n), ⟨rfl, rfl, hn⟩, rfl⟩

theorem meaning_classSignature (h : Denotes Meaning (production .classSignature) t) :
    Meaning .classSignature t := by
  simp only [production, denotes_append, denotes_rule] at h
  obtain ⟨_, _, ⟨_, _, hgeneric, ⟨superclass, hsuper, rfl⟩, rfl⟩, hinterfaces, rfl⟩ := h
  obtain ⟨ps, hps, rfl⟩ := describes_opt rfl hgeneric
  obtain ⟨interfaces, hall, rfl⟩ := describes_many rfl hinterfaces
  refine ⟨⟨ps, superclass, interfaces⟩, ⟨hps, hsuper, hall⟩, ?_⟩
  simp [ClassSignature.print, TypeParameter.printAll_eq]

/-- Each rule keeps to what its texts describe. -/
theorem meaning_production (r : JvmsRule) (t : Text) (h : Denotes Meaning (production r) t) :
    Meaning r t := by
  cases r with
  | baseType => exact meaning_baseType h
  | className => exact meaning_className h
  | objectType => exact meaning_objectType h
  | arrayType => exact meaning_arrayType h
  | fieldType => exact meaning_fieldType h
  | returnDescriptor => exact meaning_returnDescriptor h
  | methodDescriptor => exact meaning_methodDescriptor h
  | voidDescriptor => exact denotes_letter.mp h
  | javaTypeSignature => exact meaning_javaTypeSignature h
  | referenceTypeSignature => exact meaning_referenceTypeSignature h
  | arrayTypeSignature => exact meaning_arrayTypeSignature h
  | classTypeSignature => exact meaning_classTypeSignature h
  | packageSpecifier => exact meaning_packageSpecifier h
  | simpleClassTypeSignature => exact meaning_simpleClassTypeSignature h
  | classTypeSignatureSuffix => exact meaning_classTypeSignatureSuffix h
  | typeVariableSignature => exact meaning_typeVariableSignature h
  | wildcardIndicator => exact meaning_wildcardIndicator h
  | typeArguments => exact describes_bracketed rfl h
  | typeArgument => exact meaning_typeArgument h
  | typeParameters => exact describes_bracketed rfl h
  | typeParameter => exact meaning_typeParameter h
  | classBound => exact meaning_classBound h
  | interfaceBound => exact meaning_interfaceBound h
  | classSignature => exact meaning_classSignature h
  | methodSignature => exact meaning_methodSignature h
  | result => exact meaning_result h
  | throwsSignature => exact meaning_throwsSignature h
  -- The other rules give another name to a rule.
  | fieldDescriptor | componentType | parameterDescriptor => exact h
  | superclassSignature | superinterfaceSignature | fieldSignature => exact h

/-- **Every text of a rule describes what the rule is about.** -/
theorem Spells.meaning {r : JvmsRule} (h : r.Spells t) : Meaning r t :=
  Derives.denotes meaning_production h

end JvmsRule

end ClassFormat
