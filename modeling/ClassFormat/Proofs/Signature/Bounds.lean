/-
Erasure by the bounds of type variables.

In the language that signatures come from, a variable is erased to its bound: to the erasure of
the leftmost one, which may be a variable in turn.  Only a variable that is not declared where it
is used stands for the root class.  `ErasesIn` is this relation for a list of declarations.  As
long as no variable is bounded by itself, every type has one erasure and no other.

`erasure` takes the root class for every variable, as if nothing was declared.  So the two are
the same for a method just if the bounds of its variables come down to the root class, and they
are not in general.
-/
import ClassFormat.Proofs.Signature.Erased
import Mathlib.Data.Fintype.EquivFin
import Mathlib.Logic.Relation

namespace ClassFormat

/-! ### Declarations -/

namespace TypeParameter

/-- The bound that comes first; a parameter without bounds is bounded by the root class. -/
def leftmostBound (p : TypeParameter) : JavaType :=
  p.bounds.headD (.ofElement (.object .root))

/-- The declaration of a variable, which is the first one of its name. -/
def declared? (scope : List TypeParameter) (name : Text) : Option TypeParameter :=
  scope.find? fun p => p.name = name

/-- The first variable is declared, and its leftmost bound is the second one or an array of it. -/
def Follows (scope : List TypeParameter) (name next : Text) : Prop :=
  ∃ p n, declared? scope name = some p ∧ p.leftmostBound = ⟨.variable next, n⟩

/-- No variable is bounded by itself, be it directly or by way of others. -/
def Acyclic (scope : List TypeParameter) : Prop :=
  ∀ name, ¬ Relation.TransGen (Follows scope) name name

variable {scope : List TypeParameter} {name next : Text} {p : TypeParameter}

theorem mem_of_declared? (h : declared? scope name = some p) : p ∈ scope :=
  List.mem_of_find?_eq_some h

theorem name_of_declared? (h : declared? scope name = some p) : p.name = name := by
  simpa using List.find?_some h

theorem WellFormed.leftmostBound (h : p.WellFormed) : p.leftmostBound.WellFormed := by
  unfold TypeParameter.leftmostBound
  cases hbounds : p.bounds with
  | nil => exact absurd hbounds h.bounded
  | cons b rest => exact (h.bounds b (by simp [hbounds])).2

theorem Follows.exists_mem (h : Follows scope name next) :
    ∃ p ∈ scope, p.name = name ∧ ∃ n, p.leftmostBound = ⟨.variable next, n⟩ := by
  obtain ⟨p, n, hp, hbound⟩ := h
  exact ⟨p, mem_of_declared? hp, name_of_declared? hp, n, hbound⟩

/-- Where each bound has a lower rank than the variable that it bounds, there is no way around. -/
theorem acyclic_of_rank (rank : Text → Nat) (h : ∀ p ∈ scope, ∀ next n,
    p.leftmostBound = ⟨.variable next, n⟩ → rank next < rank p.name) : Acyclic scope := by
  have hstep {name next : Text} (hfollows : Follows scope name next) : rank next < rank name := by
    obtain ⟨p, hp, rfl, n, hbound⟩ := hfollows.exists_mem
    exact h p hp next n hbound
  have hpath {name next : Text} (hpath : Relation.TransGen (Follows scope) name next) :
      rank next < rank name := by
    induction hpath with
    | single hfollows => exact hstep hfollows
    | tail _ hfollows ih => exact (hstep hfollows).trans ih
  exact fun name hcycle => Nat.lt_irrefl _ (hpath hcycle)

/-- There are only so many declarations, so bounds without a way around come to an end. -/
theorem Acyclic.wellFounded (h : Acyclic scope) :
    WellFounded fun next name => Follows scope name next := by
  let Declared := { name : Text // name ∈ scope.map TypeParameter.name }
  let below (next name : Declared) : Prop :=
    Relation.TransGen (Follows scope) name.1 next.1
  have hfinite : Finite Declared := inferInstance
  have htrans : IsTrans Declared below := ⟨fun _ _ _ h₁ h₂ => h₂.trans h₁⟩
  have hirrefl : Std.Irrefl below := ⟨fun name => h name.1⟩
  have hbelow : WellFounded below := Finite.wellFounded_of_trans_of_irrefl below
  -- A variable that is not declared has no bound to follow.
  have hother (name : Text) (hname : name ∉ scope.map TypeParameter.name) :
      Acc (fun next name => Follows scope name next) name := by
    refine ⟨name, fun next hnext => ?_⟩
    obtain ⟨p, hp, hpname, -⟩ := hnext.exists_mem
    exact absurd (List.mem_map.mpr ⟨p, hp, hpname⟩) hname
  have hdeclared (name : Declared) : Acc (fun next name => Follows scope name next) name.1 := by
    induction name using hbelow.induction with
    | _ name ih =>
        refine ⟨name.1, fun next hnext => ?_⟩
        by_cases hmem : next ∈ scope.map TypeParameter.name
        · exact ih ⟨next, hmem⟩ (.single hnext)
        · exact hother next hmem
  refine ⟨fun name => ?_⟩
  by_cases hname : name ∈ scope.map TypeParameter.name
  · exact hdeclared ⟨name, hname⟩
  · exact hother name hname

end TypeParameter

/-! ### Erasure in a scope -/

/--
The erasure of a type among declarations.  A variable has the erasure of its leftmost bound, in
arrays of as many more dimensions as the variable stands in.
-/
inductive JavaType.ErasesIn (scope : List TypeParameter) : JavaType → JavaType → Prop where
  | primitive (type : Primitive) (n : Nat) : ErasesIn scope ⟨.primitive type, n⟩ ⟨.primitive type, n⟩
  | object (c : ClassType) (n : Nat) : ErasesIn scope ⟨.object c, n⟩ ⟨.object c.erased, n⟩
  | undeclared {name : Text} (h : TypeParameter.declared? scope name = none) (n : Nat) :
      ErasesIn scope ⟨.variable name, n⟩ ⟨.object .root, n⟩
  | declared {name : Text} {p : TypeParameter} {e : ElementType} {k : Nat}
      (h : TypeParameter.declared? scope name = some p)
      (hbound : ErasesIn scope p.leftmostBound ⟨e, k⟩) (n : Nat) :
      ErasesIn scope ⟨.variable name, n⟩ ⟨e, k + n⟩

namespace JavaType

variable {scope : List TypeParameter} {t e e' : JavaType}

/-- A type has no two erasures. -/
theorem ErasesIn.unique (h : ErasesIn scope t e) (h' : ErasesIn scope t e') : e = e' := by
  induction h generalizing e' with
  | primitive => cases h'; rfl
  | object => cases h'; rfl
  | undeclared hnone =>
      cases h' with
      | undeclared => rfl
      | declared hsome =>
          rw [hnone] at hsome
          cases hsome
  | declared hsome _ _ ih =>
      cases h' with
      | undeclared hnone =>
          rw [hnone] at hsome
          cases hsome
      | declared hsome' hbound' =>
          rw [hsome] at hsome'
          cases hsome'
          cases ih hbound'
          rfl

/-- All types but variables are erased at once. -/
theorem exists_erasesIn_of_variable
    (h : ∀ name n, t = ⟨.variable name, n⟩ → ∃ e, ErasesIn scope t e) :
    ∃ e, ErasesIn scope t e := by
  obtain ⟨e, n⟩ := t
  match e with
  | .primitive type => exact ⟨_, .primitive type n⟩
  | .object c => exact ⟨_, .object c n⟩
  | .variable name => exact h name n rfl

/-- If no variable is bounded by itself, every type has an erasure. -/
theorem exists_erasesIn (hacyclic : TypeParameter.Acyclic scope) (t : JavaType) :
    ∃ e, ErasesIn scope t e := by
  -- Only variables lead on to other types, so they are what the induction is on.
  have hvariable (name : Text) : ∀ n, ∃ e, ErasesIn scope ⟨.variable name, n⟩ e := by
    induction name using hacyclic.wellFounded.induction with
    | _ name ih =>
        intro n
        cases hp : TypeParameter.declared? scope name with
        | none => exact ⟨_, .undeclared hp n⟩
        | some p =>
            obtain ⟨⟨e, k⟩, hbound⟩ : ∃ e, ErasesIn scope p.leftmostBound e := by
              refine exists_erasesIn_of_variable fun next m hb => ?_
              rw [hb]
              exact ih next ⟨p, m, hp, hb⟩ m
            exact ⟨_, .declared hp hbound n⟩
  refine exists_erasesIn_of_variable fun name n ht => ?_
  rw [ht]
  exact hvariable name n

theorem ErasesIn.isPlain (h : ErasesIn scope t e) : e.IsPlain := by
  induction h with
  | primitive => trivial
  | object => exact ⟨rfl, rfl⟩
  | undeclared => exact ⟨rfl, rfl⟩
  | declared _ _ _ ih => exact ih

theorem ErasesIn.wellFormed (hscope : ∀ p ∈ scope, p.WellFormed) (h : ErasesIn scope t e)
    (ht : t.WellFormed) : e.WellFormed := by
  induction h with
  | primitive => trivial
  | object => exact ClassType.WellFormed.erased ht
  | undeclared => exact show ClassType.root.WellFormed by decide
  | declared hp _ _ ih =>
      exact ih (hscope _ (TypeParameter.mem_of_declared? hp)).leftmostBound

/-- The bounds of the variable, if it is declared, come down to the root class. -/
def ComesToRoot (scope : List TypeParameter) (name : Text) : Prop :=
  ∀ p, TypeParameter.declared? scope name = some p →
    ErasesIn scope p.leftmostBound (.ofElement (.object .root))

/-- Taking the root class for a variable is right if its bounds come down to it. -/
theorem ErasesIn.eq_erased_iff (h : ErasesIn scope t e) :
    e = t.erased ↔ ∀ name n, t = ⟨.variable name, n⟩ → ComesToRoot scope name := by
  cases h with
  | primitive type n => exact ⟨fun _ _ _ h => (by cases h), fun _ => rfl⟩
  | object c n => exact ⟨fun _ _ _ h => (by cases h), fun _ => rfl⟩
  | undeclared hnone n =>
      refine ⟨fun _ name _ h p hp => ?_, fun _ => rfl⟩
      cases h
      rw [hnone] at hp
      cases hp
  | @declared name p e k hp hbound n =>
      refine ⟨fun heq other m h p' hp' => ?_, fun h => ?_⟩
      · obtain ⟨rfl, hdimensions⟩ := JavaType.mk.inj heq
        obtain rfl : k = 0 := Nat.add_eq_right.mp hdimensions
        cases h
        rw [hp] at hp'
        cases hp'
        exact hbound
      · obtain ⟨rfl, rfl⟩ := JavaType.mk.inj (hbound.unique (h name n rfl p hp))
        rw [Nat.zero_add]
        rfl

end JavaType

/-! ### Methods -/

/-- The erasure of a result among declarations. -/
inductive ReturnType.ErasesIn (scope : List TypeParameter) : ReturnType → ReturnType → Prop where
  | void : ErasesIn scope void void
  | value {t e : JavaType} (h : t.ErasesIn scope e) : ErasesIn scope (.value t) (.value e)

/-- The erasure of a method, whose variables are declared by its own type parameters. -/
structure MethodType.ErasesTo (m e : MethodType) : Prop where
  typeParameters : e.typeParameters = []
  parameters : List.Forall₂ (JavaType.ErasesIn m.typeParameters) m.parameters e.parameters
  result : m.result.ErasesIn m.typeParameters e.result
  throws : e.throws = []

/-- The variable is the type of a parameter or of the result, or the element type of one. -/
def MethodType.Uses (m : MethodType) (name : Text) : Prop :=
  ∃ n, ⟨.variable name, n⟩ ∈ m.parameters ∨ m.result = .value ⟨.variable name, n⟩

namespace ReturnType

variable {scope : List TypeParameter} {r e e' : ReturnType}

theorem ErasesIn.unique (h : ErasesIn scope r e) (h' : ErasesIn scope r e') : e = e' := by
  cases h with
  | void => cases h'; rfl
  | value h =>
      cases h' with
      | value h' => rw [h.unique h']

theorem exists_erasesIn (hacyclic : TypeParameter.Acyclic scope) (r : ReturnType) :
    ∃ e, ErasesIn scope r e := by
  cases r with
  | void => exact ⟨void, .void⟩
  | value t =>
      obtain ⟨e, he⟩ := t.exists_erasesIn hacyclic
      exact ⟨.value e, .value he⟩

theorem ErasesIn.isPlain (h : ErasesIn scope r e) : e.IsPlain := by
  cases h with
  | void => trivial
  | value h => exact h.isPlain

theorem ErasesIn.wellFormed (hscope : ∀ p ∈ scope, p.WellFormed) (h : ErasesIn scope r e)
    (hr : r.WellFormed) : e.WellFormed := by
  cases h with
  | void => trivial
  | value h => exact h.wellFormed hscope hr

theorem ErasesIn.eq_erased_iff (h : ErasesIn scope r e) :
    e = r.erased ↔ ∀ name n, r = .value ⟨.variable name, n⟩ → JavaType.ComesToRoot scope name := by
  cases h with
  | void => exact ⟨fun _ _ _ h => (by cases h), fun _ => rfl⟩
  | value h =>
      simp only [erased, value.injEq]
      exact h.eq_erased_iff

end ReturnType

section Pairwise

variable {α β : Type} {R : α → β → Prop} {xs : List α} {ys : List β}

theorem exists_of_mem_right (h : List.Forall₂ R xs ys) {b : β} (hb : b ∈ ys) :
    ∃ a ∈ xs, R a b := by
  induction h with
  | nil => cases hb
  | cons hab _ ih =>
      rcases List.mem_cons.mp hb with rfl | hb
      · exact ⟨_, List.mem_cons_self, hab⟩
      · obtain ⟨a, ha, hR⟩ := ih hb
        exact ⟨a, List.mem_cons_of_mem _ ha, hR⟩

theorem eq_map_iff_of_forall₂ {f : α → β} {P : α → Prop} (hR : ∀ a b, R a b → (b = f a ↔ P a))
    (h : List.Forall₂ R xs ys) : ys = xs.map f ↔ ∀ a ∈ xs, P a := by
  induction h with
  | nil => simp
  | cons hab _ ih => rw [List.map_cons, List.cons.injEq, hR _ _ hab, ih, List.forall_mem_cons]

end Pairwise

namespace MethodType

variable {m e e' : MethodType}

/-- No method has two erasures. -/
theorem ErasesTo.unique (h : m.ErasesTo e) (h' : m.ErasesTo e') : e = e' := by
  have hparameters : e.parameters = e'.parameters :=
    List.right_unique_forall₂' (fun _ _ _ h h' => h.unique h') h.parameters h'.parameters
  have hresult : e.result = e'.result := h.result.unique h'.result
  have htypeParameters := h.typeParameters.trans h'.typeParameters.symm
  have hthrows := h.throws.trans h'.throws.symm
  cases e
  cases e'
  congr

/-- If no variable is bounded by itself, every method has an erasure. -/
theorem exists_erasesTo (hacyclic : TypeParameter.Acyclic m.typeParameters) :
    ∃ e, m.ErasesTo e := by
  choose erase herase using fun t : JavaType => t.exists_erasesIn hacyclic
  obtain ⟨result, hresult⟩ := m.result.exists_erasesIn hacyclic
  refine ⟨⟨[], m.parameters.map erase, result, []⟩, rfl, ?_, hresult, rfl⟩
  exact List.forall₂_map_right_iff.mpr (List.forall₂_same.mpr fun t _ => herase t)

theorem ErasesTo.isPlain (h : m.ErasesTo e) : e.IsPlain where
  typeParameters := h.typeParameters
  parameters t ht := by
    obtain ⟨_, -, herases⟩ := exists_of_mem_right h.parameters ht
    exact herases.isPlain
  result := h.result.isPlain
  throws := h.throws

theorem ErasesTo.wellFormed (hm : m.WellFormed) (h : m.ErasesTo e) : e.WellFormed where
  typeParameters p hp := by
    rw [h.typeParameters] at hp
    cases hp
  parameters t ht := by
    obtain ⟨t', ht', herases⟩ := exists_of_mem_right h.parameters ht
    exact herases.wellFormed hm.typeParameters (hm.parameters t' ht')
  result := h.result.wellFormed hm.typeParameters hm.result
  throws t ht := by
    rw [h.throws] at ht
    cases ht

/-- Taking the root class for all variables is right if all their bounds come down to it. -/
theorem ErasesTo.eq_erased_iff (h : m.ErasesTo e) :
    e = m.erased ↔ ∀ name, m.Uses name → JavaType.ComesToRoot m.typeParameters name := by
  have hparameters := eq_map_iff_of_forall₂ (fun _ _ h => JavaType.ErasesIn.eq_erased_iff h)
    h.parameters
  have hresult := h.result.eq_erased_iff
  have hparts : e = m.erased ↔
      e.parameters = m.parameters.map JavaType.erased ∧ e.result = m.result.erased := by
    obtain ⟨htypeParameters, -, -, hthrows⟩ := h
    cases e
    simp_all [erased]
  rw [hparts, hparameters, hresult]
  refine ⟨?_, ?_⟩
  · rintro ⟨hp, hr⟩ name ⟨n, huse⟩
    rcases huse with huse | huse
    · exact hp _ huse name n rfl
    · exact hr name n huse
  · intro h
    exact ⟨fun t ht name n heq => h name ⟨n, .inl (heq ▸ ht)⟩,
      fun name n heq => h name ⟨n, .inr heq⟩⟩

/--
**The erasure of a method that is read is the one in the sense of the language just if the
bounds of its variables come down to the root class.**  If no variable is bounded by itself, a
method has one erasure by the bounds of its variables, and this is read from its notation as a
descriptor is.  `erasure` gives the notation if each variable that is a parameter, the result, or
the element type of one is either not declared, or declared with bounds that lead to the root
class; otherwise it gives something else.
-/
theorem erasure_eq_print_iff {t : Text} (h : readMethodSignature t = .ok m)
    (hacyclic : TypeParameter.Acyclic m.typeParameters) :
    ∃ e, m.ErasesTo e ∧ (∀ e', m.ErasesTo e' → e' = e) ∧ readMethodDescriptor e.print = .ok e ∧
      (m.erasure = e.print ↔ ∀ name, m.Uses name →
        ∀ p, TypeParameter.declared? m.typeParameters name = some p →
          p.leftmostBound.ErasesIn m.typeParameters (.ofElement (.object .root))) := by
  obtain ⟨hwell, -⟩ := readMethodSignature_ok_iff.mp h
  obtain ⟨e, he⟩ := exists_erasesTo hacyclic
  have hread : readMethodDescriptor e.print = .ok e :=
    readMethodDescriptor_ok_iff.mpr ⟨⟨he.wellFormed hwell, he.isPlain⟩, rfl⟩
  refine ⟨e, he, fun e' he' => he'.unique he, hread, ?_⟩
  have hprint : m.erasure = e.print ↔ e = m.erased := by
    refine ⟨fun heq => ?_, fun heq => ?_⟩
    · have herased : readMethodDescriptor m.erasure = .ok m.erased := read_erasure hwell
      rw [heq, hread] at herased
      exact Except.ok.inj herased
    · rw [heq, m.print_erased]
  exact hprint.trans he.eq_erased_iff

/-- Two variables whose bounds lead to the root class, and one that is not declared. -/
theorem erasure_eq_print_iff_chain :
    let t : Text := "<T:Ljava/lang/Object;U:TT;>([TU;TW;)TT;"
    let scope : List TypeParameter :=
      [⟨"T", some (.ofElement (.object .root)), []⟩, ⟨"U", some (.ofElement (.variable "T")), []⟩]
    let m : MethodType :=
      ⟨scope, [⟨.variable "U", 1⟩, .ofElement (.variable "W")],
        .value (.ofElement (.variable "T")), []⟩
    readMethodSignature t = .ok m ∧ TypeParameter.Acyclic m.typeParameters ∧
      ∃ e, m.ErasesTo e ∧ m.erasure = e.print := by
  intro t scope m
  have hread : readMethodSignature t = .ok m := readMethodSignature_ok_iff.mpr ⟨by decide, rfl⟩
  have hacyclic : TypeParameter.Acyclic m.typeParameters := by
    refine TypeParameter.acyclic_of_rank (fun name => if name = "U" then 1 else 0) ?_
    rintro p hp next n hbound
    simp only [m, scope, List.mem_cons, List.not_mem_nil, or_false] at hp
    rcases hp with rfl | rfl
    · cases hbound
    · cases hbound
      decide
  have hroot (p : TypeParameter) (hp : p ∈ scope) :
      p.leftmostBound.ErasesIn scope (.ofElement (.object .root)) := by
    have hobject : JavaType.ErasesIn scope (.ofElement (.object .root))
        (.ofElement (.object .root)) := .object .root 0
    simp only [scope, List.mem_cons, List.not_mem_nil, or_false] at hp
    rcases hp with rfl | rfl
    · exact hobject
    · exact .declared (p := ⟨"T", some (.ofElement (.object .root)), []⟩) rfl hobject 0
  obtain ⟨e, he, -, -, herasure⟩ := erasure_eq_print_iff hread hacyclic
  exact ⟨hread, hacyclic, e, he, herasure.mpr fun name _ p hp =>
    hroot p (TypeParameter.mem_of_declared? hp)⟩

/-- A bound that is not the root class does not show in the erasure. -/
theorem erasure_ne_of_bound :
    let number : ClassType := ⟨["java", "lang"], ⟨"Number", []⟩, []⟩
    let m : MethodType := ⟨[⟨"T", some (.ofElement (.object number)), []⟩],
      [.ofElement (.variable "T")], .void, []⟩
    let e : MethodType := ⟨[], [.ofElement (.object number)], .void, []⟩
    readMethodSignature "<T:Ljava/lang/Number;>(TT;)V" = .ok m ∧
      TypeParameter.Acyclic m.typeParameters ∧ m.ErasesTo e ∧
      e.print = "(Ljava/lang/Number;)V" ∧ m.erasure = "(Ljava/lang/Object;)V" ∧
      m.erasure ≠ e.print := by
  intro number m e
  refine ⟨readMethodSignature_ok_iff.mpr ⟨by decide, rfl⟩, ?_, ?_, rfl, rfl, by decide⟩
  · refine TypeParameter.acyclic_of_rank (fun _ => 0) ?_
    rintro p hp next n hbound
    obtain rfl := List.mem_singleton.mp hp
    cases hbound
  · have hnumber : JavaType.ErasesIn m.typeParameters (.ofElement (.object number))
        (.ofElement (.object number)) := .object number 0
    exact ⟨rfl, .cons (.declared rfl hnumber 0) .nil, .void, rfl⟩

end MethodType

end ClassFormat
