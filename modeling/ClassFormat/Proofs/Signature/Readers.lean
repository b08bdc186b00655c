/-
The readers of both grammars undo the printer.

Each reader is put together from smaller ones, and so is its law.  A class type, a type
and a type argument end in a symbol of their own or in a letter that stands for itself,
and anything may follow them.  After the name of a class and after the bounds of a type
parameter the reader would go on; there the symbols that come next in a printed tree
are never taken for more, whatever letters the names around them are made of.

A type argument holds types again, so the readers of signatures are dealt with given
one for type arguments; the bound on the depth is what the induction is on.
-/
import ClassFormat.Proofs.Signature.Inversion

namespace ClassFormat

open ClassFormat.Parser

/-! ### What comes next -/

namespace Text.Ends

variable {α : Type} {more : CodePoint → Prop}

theorem append {u v : Text} (hu : Text.Ends more u) (hv : Text.Ends more v) :
    Text.Ends more (u ++ v) := by
  cases u with
  | nil => exact hv
  | cons p u => exact .cons (hu p rfl)

/-- Items after a lead go on with nothing that the lead does not go on with. -/
theorem leads {lead : Char} {print : α → Text} {as : List α} (h : ¬ more (.scalar lead)) :
    Text.Ends more (as.flatMap fun a => .scalar lead :: print a) := by
  cases as with
  | nil => exact .nil
  | cons a as => exact .cons h

theorem bracketed {print : α → Text} {as : List α} (h : ¬ more (.scalar '<')) :
    Text.Ends more (Text.bracketed print as) := by
  cases as with
  | nil => exact .nil
  | cons a as => exact .cons h

end Text.Ends

/-! ### Parts of both grammars -/

/-- A primitive type is read off its letter. -/
theorem primitive_some {p : CodePoint} {e : ElementType} {t rest : Text}
    (h : (do return ElementType.primitive (← Primitive.ofLetter? p) : Parser ElementType) t =
      some (e, rest)) : ∃ type, e = .primitive type ∧ p = .scalar type.letter ∧ t = rest := by
  obtain ⟨type, t₁, hlift, h₁⟩ := bind_some.mp h
  obtain ⟨rfl, rfl⟩ := pure_some.mp h₁
  obtain ⟨hletter, rfl⟩ := lift_some.mp hlift
  exact ⟨type, rfl, Primitive.ofLetter?_eq_some_iff.mp hletter, rfl⟩

/-- The condition holds for the type of the value if there is one. -/
def ReturnType.Holds (ok : JavaType → Prop) : ReturnType → Prop
  | void => True
  | value t => ok t

/-- A type or the letter for no value. -/
theorem returned_inverts {type : Parser JavaType} {ok : JavaType → Prop}
    (h : type.Inverts ok JavaType.print fun _ => False) :
    Parser.Inverts (do
      if (← peek) = some (.scalar 'V') then
        symbol 'V'
        return ReturnType.void
      else return .value (← type)) (ReturnType.Holds ok) ReturnType.print fun _ => False := by
  refine ⟨?_, ?_⟩
  · intro r rest hok _
    rw [peek_bind]
    cases r with
    | void =>
        rw [ReturnType.print, List.cons_append, List.head?_cons, if_pos rfl]
        exact symbol_bind_some.mpr ⟨rest, rfl, rfl⟩
    | value t =>
        obtain ⟨c, hc, u, hprint⟩ := t.print_eq_cons
        have hne : (t.print ++ rest).head? ≠ some (.scalar 'V') := by
          rw [hprint, List.cons_append, List.head?_cons]
          intro heq
          cases heq
          exact absurd hc (by decide)
        rw [ReturnType.print, if_neg hne]
        exact h.bind_print hok .never
  · intro t rest r hread
    rw [peek_bind] at hread
    split at hread
    · obtain ⟨t₁, rfl, h₁⟩ := symbol_bind_some.mp hread
      obtain ⟨rfl, rfl⟩ := pure_some.mp h₁
      exact ⟨trivial, rfl⟩
    · obtain ⟨type, t₁, hok, rfl, h₁⟩ := h.of_bind hread
      obtain ⟨rfl, rfl⟩ := pure_some.mp h₁
      exact ⟨hok, rfl⟩

/-- A type from its array dimensions and the element type after them. -/
theorem dimensioned_inverts {element : Parser ElementType} {ok : ElementType → Prop}
    (h : element.Inverts ok ElementType.print fun _ => False) :
    Parser.Inverts (do
      let brackets ← following '[' (pure ())
      return (⟨← element, brackets.length⟩ : JavaType)) (fun t => ok t.element) JavaType.print
        fun _ => False := by
  refine ⟨?_, ?_⟩
  · intro t rest hok _
    obtain ⟨e, n⟩ := t
    have hend : Text.Ends (· = .scalar '[') (e.print ++ rest) := by
      obtain ⟨c, hc, u, hprint⟩ := e.print_eq_cons
      rw [hprint]
      refine .cons fun heq => ?_
      cases heq
      exact absurd hc (by decide)
    have hbrackets := brackets_inverts.accepts (a := List.replicate n ()) _ trivial hend
    rw [List.length_replicate] at hbrackets
    rw [JavaType.print, List.append_assoc]
    refine (bind_of_some hbrackets).trans ((h.bind_print hok .never).trans ?_)
    rw [List.length_replicate]
    rfl
  · intro t rest type hread
    obtain ⟨brackets, t₁, -, rfl, h₁⟩ := brackets_inverts.of_bind hread
    obtain ⟨e, t₂, hok, rfl, h₂⟩ := h.of_bind h₁
    obtain ⟨rfl, rfl⟩ := pure_some.mp h₂
    exact ⟨hok, (List.append_assoc ..).symm⟩

/-- No type begins as the end of a list does. -/
theorem JavaType.starts (t : JavaType) (stop : Char) (hstop : stop ∉ JavaType.leads) :
    ∃ p rest, t.print = p :: rest ∧ p ≠ .scalar stop ∧ ¬ False := by
  obtain ⟨c, hc, rest, hprint⟩ := t.print_eq_cons
  refine ⟨_, rest, hprint, fun heq => hstop ?_, id⟩
  cases heq
  exact hc

/-- A type parameter begins with its name. -/
theorem TypeParameter.print_eq_cons {p : TypeParameter} (h : p.name.IsName) :
    ∃ c rest, p.print = c :: rest ∧ isNamePart c = true := by
  obtain ⟨hne, hall⟩ := isName_iff.mp h
  obtain ⟨c, n, hname⟩ := List.exists_cons_of_ne_nil hne
  refine ⟨c, _, by rw [print, hname]; rfl, ?_⟩
  exact hall c (by rw [hname]; exact List.mem_cons_self ..)

/-! ### Descriptors -/

namespace Descriptor

theorem binaryName_inverts :
    binaryName.Inverts (fun b => (∀ n ∈ b.1, n.IsName) ∧ b.2.IsName)
      (fun b => b.1.flatMap (· ++ [CodePoint.scalar '/']) ++ b.2)
      (fun p => p = .scalar '/' ∨ isNamePart p = true) := by
  have hmore := name_inverts.following '/' (by decide)
  refine ⟨?_, ?_⟩
  · intro b rest hok hrest
    obtain ⟨package, simple⟩ := b
    obtain ⟨hpackage, hsimple⟩ := hok
    obtain ⟨first, more, hnames, htext⟩ := Text.exists_names package simple
    have hall : ∀ n ∈ first :: more, n.IsName := by
      rw [← hnames]
      exact List.forall_mem_append.mpr ⟨hpackage, List.forall_mem_singleton.mpr hsimple⟩
    have hdrop : (first :: more).dropLast = package := by
      rw [← hnames, List.dropLast_concat]
    have hlast : more.getLastD first = simple := by
      have hlast := congrArg List.getLast? hnames
      rw [List.getLast?_concat, List.getLast?_cons, Option.some.injEq] at hlast
      rw [List.getLastD_eq_getLast?, hlast]
    show binaryName (package.flatMap (· ++ [CodePoint.scalar '/']) ++ simple ++ rest) = _
    rw [htext, List.append_assoc]
    have hend : Text.Ends (isNamePart · = true)
        ((more.flatMap fun n => .scalar '/' :: n) ++ rest) :=
      .append (.leads (by decide)) (hrest.mono fun p hp => .inr hp)
    obtain ⟨hfirst, hmoreNames⟩ := List.forall_mem_cons.mp hall
    refine (name_inverts.bind_print hfirst hend).trans ?_
    refine (hmore.bind_print hmoreNames hrest).trans ?_
    rw [hdrop, hlast]
    rfl
  · intro t rest b hread
    obtain ⟨first, t₁, hname, rfl, h₁⟩ := name_inverts.of_bind hread
    obtain ⟨more, t₂, hnames, rfl, h₂⟩ := hmore.of_bind h₁
    obtain ⟨rfl, rfl⟩ := pure_some.mp h₂
    have hall : ∀ n ∈ first :: more, n.IsName := List.forall_mem_cons.mpr ⟨hname, hnames⟩
    have hsplit : (first :: more).dropLast ++ [more.getLastD first] = first :: more := by
      rw [← List.getLast_eq_getLastD (List.cons_ne_nil first more), List.dropLast_concat_getLast]
    rw [← hsplit] at hall
    obtain ⟨hpackage, hsimple⟩ := List.forall_mem_append.mp hall
    refine ⟨⟨hpackage, List.forall_mem_singleton.mp hsimple⟩, ?_⟩
    -- The text is known for the names as they are split, and they split in one way only.
    obtain ⟨first', more', hnames', htext⟩ :=
      Text.exists_names (first :: more).dropLast (more.getLastD first)
    obtain ⟨rfl, rfl⟩ := List.cons.inj (hsplit.symm.trans hnames')
    rw [htext, List.append_assoc]
    rfl

theorem elementType_inverts :
    elementType.Inverts (fun e => e.WellFormed ∧ e.IsPlain) ElementType.print fun _ => False := by
  refine ⟨?_, ?_⟩
  · intro e rest hok _
    obtain ⟨hwell, hplain⟩ := hok
    match e with
    | .primitive p =>
      refine next_bind_some.mpr ⟨_, rest, rfl, ?_⟩
      cases p <;> rfl
    | .object ⟨package, ⟨simple, arguments⟩, inner⟩ =>
      obtain ⟨rfl, rfl⟩ : arguments = [] ∧ inner = [] := hplain
      obtain ⟨hpackage, ⟨hsimple, -⟩, -⟩ := hwell
      have hprint : ElementType.print (.object ⟨package, ⟨simple, []⟩, []⟩) ++ rest =
          CodePoint.scalar 'L' :: (package.flatMap (· ++ [CodePoint.scalar '/']) ++ simple ++
            .scalar ';' :: rest) := by
        rw [ElementType.print, ClassType.print_eq, ClassType.printBody]
        simp [Text.bracketed]
      rw [hprint]
      refine next_bind_some.mpr ⟨.scalar 'L', _, rfl, ?_⟩
      refine (binaryName_inverts.bind_print (a := (package, simple)) ⟨hpackage, hsimple⟩
        (.cons (by decide))).trans ?_
      exact symbol_bind_some.mpr ⟨rest, rfl, rfl⟩
  · intro t rest e hread
    obtain ⟨p, t₁, rfl, h₁⟩ := next_bind_some.mp hread
    split at h₁
    · obtain ⟨⟨package, simple⟩, t₂, ⟨hpackage, hsimple⟩, rfl, h₂⟩ :=
        binaryName_inverts.of_bind h₁
      obtain ⟨t₃, rfl, h₃⟩ := symbol_bind_some.mp h₂
      obtain ⟨rfl, rfl⟩ := pure_some.mp h₃
      refine ⟨⟨⟨hpackage, ⟨hsimple, trivial⟩, trivial⟩, rfl, rfl⟩, ?_⟩
      rw [ElementType.print, ClassType.print_eq, ClassType.printBody]
      simp [Text.bracketed]
    · obtain ⟨type, rfl, rfl, rfl⟩ := primitive_some h₁
      exact ⟨⟨trivial, trivial⟩, rfl⟩

theorem javaType_inverts :
    javaType.Inverts (fun t => t.WellFormed ∧ t.IsPlain) JavaType.print fun _ => False :=
  (dimensioned_inverts elementType_inverts).congr fun t => by cases t; exact Iff.rfl

theorem returnType_inverts :
    returnType.Inverts (fun r => r.WellFormed ∧ r.IsPlain) ReturnType.print fun _ => False := by
  refine (returned_inverts javaType_inverts).congr fun r => ?_
  cases r with
  | void => exact ⟨fun _ => ⟨trivial, trivial⟩, fun _ => trivial⟩
  | value t => exact Iff.rfl

theorem methodType_inverts :
    methodType.Inverts (fun m => m.WellFormed ∧ m.IsPlain) MethodType.print fun _ => False := by
  have hparameters := javaType_inverts.untilSymbol ')' id
    fun t _ => t.starts ')' (by decide)
  refine ⟨?_, ?_⟩
  · intro m rest hok _
    obtain ⟨typeParameters, parameters, result, throws⟩ := m
    obtain ⟨⟨-, hparametersWell, hresultWell, -⟩, rfl, hparametersPlain, hresultPlain, rfl⟩ := hok
    have hall : ∀ t ∈ parameters, t.WellFormed ∧ t.IsPlain :=
      fun t ht => ⟨hparametersWell t ht, hparametersPlain t ht⟩
    have hprint : MethodType.print ⟨[], parameters, result, []⟩ ++ rest =
        CodePoint.scalar '(' :: (parameters.flatMap JavaType.print ++ [CodePoint.scalar ')'] ++
          (result.print ++ rest)) := by
      simp [MethodType.print, TypeParameter.printAll]
    rw [hprint]
    refine symbol_bind_some.mpr ⟨_, rfl, (hparameters.bind_print hall .never).trans ?_⟩
    exact returnType_inverts.bind_print ⟨hresultWell, hresultPlain⟩ .never
  · intro t rest m hread
    obtain ⟨t₁, rfl, h₁⟩ := symbol_bind_some.mp hread
    obtain ⟨types, t₂, hall, rfl, h₂⟩ := hparameters.of_bind h₁
    obtain ⟨result, t₃, ⟨hwell, hplain⟩, rfl, h₃⟩ := returnType_inverts.of_bind h₂
    obtain ⟨rfl, rfl⟩ := pure_some.mp h₃
    refine ⟨⟨⟨List.forall_mem_nil _, fun t ht => (hall t ht).1, hwell, List.forall_mem_nil _⟩,
      ⟨rfl, fun t ht => (hall t ht).2, hplain, rfl⟩⟩, ?_⟩
    simp [MethodType.print, TypeParameter.printAll]

end Descriptor

/-! ### Signatures -/

namespace Signature

section Arguments

variable {argument : Parser TypeArgument} {ok : TypeArgument → Prop}
  (harg : argument.Inverts ok TypeArgument.print fun _ => False)
include harg

theorem arguments_inverts :
    (arguments argument).Inverts (fun as => ∀ a ∈ as, ok a) (Text.bracketed TypeArgument.print)
      (· = .scalar '<') := by
  refine harg.bracketed id fun a _ => ?_
  obtain ⟨c, hc, rest, hprint⟩ := a.print_eq_cons
  refine ⟨_, rest, hprint, fun heq => ?_, id⟩
  cases heq
  exact absurd hc (by decide)

theorem segment_inverts :
    (segment argument).Inverts (ClassSegment.WellFormedWith ok) ClassSegment.print
      (fun p => p = .scalar '<' ∨ isNamePart p = true) := by
  refine ⟨?_, ?_⟩
  · intro s rest hok hrest
    obtain ⟨n, as⟩ := s
    obtain ⟨hname, hall⟩ := hok
    have hend : Text.Ends (isNamePart · = true) (Text.bracketed TypeArgument.print as ++ rest) :=
      .append (.bracketed (by decide)) (hrest.mono fun p hp => .inr hp)
    rw [ClassSegment.print_eq, List.append_assoc]
    refine (name_inverts.bind_print hname hend).trans ?_
    exact (arguments_inverts harg).bind_print hall (hrest.mono fun p hp => .inl hp)
  · intro t rest s hread
    obtain ⟨n, t₁, hn, rfl, h₁⟩ := name_inverts.of_bind hread
    obtain ⟨as, t₂, hall, rfl, h₂⟩ := (arguments_inverts harg).of_bind h₁
    obtain ⟨rfl, rfl⟩ := pure_some.mp h₂
    refine ⟨⟨hn, hall⟩, ?_⟩
    rw [ClassSegment.print_eq]
    exact (List.append_assoc ..).symm

theorem classBody_inverts :
    (classBody argument).Inverts (ClassType.WellFormedWith ok) ClassType.printBody
      fun _ => False := by
  have hinner := (segment_inverts harg).following '.' (by decide)
  refine ⟨?_, ?_⟩
  · intro c rest hok _
    obtain ⟨package, ⟨simple, as⟩, inner⟩ := c
    obtain ⟨hpackage, ⟨hsimple, hall⟩, hsegments⟩ := hok
    have hend₃ : ∀ more : CodePoint → Prop, ¬ more (.scalar ';') →
        Text.Ends more (.scalar ';' :: rest) := fun more h => .cons h
    have hend₂ : ∀ more : CodePoint → Prop, ¬ more (.scalar ';') → ¬ more (.scalar '.') →
        Text.Ends more ((inner.flatMap fun s => .scalar '.' :: s.print) ++ .scalar ';' :: rest) :=
      fun more h h' => .append (.leads h') (hend₃ more h)
    have hprint : ClassType.printBody ⟨package, ⟨simple, as⟩, inner⟩ ++ rest =
        (package.flatMap (· ++ [CodePoint.scalar '/']) ++ simple) ++
          (Text.bracketed TypeArgument.print as ++
            ((inner.flatMap fun s => .scalar '.' :: s.print) ++ .scalar ';' :: rest)) := by
      simp [ClassType.printBody]
    rw [hprint]
    have hend₁ : ∀ more : CodePoint → Prop, ¬ more (.scalar ';') → ¬ more (.scalar '.') →
        ¬ more (.scalar '<') → Text.Ends more (Text.bracketed TypeArgument.print as ++
          ((inner.flatMap fun s => .scalar '.' :: s.print) ++ .scalar ';' :: rest)) :=
      fun more h h' h'' => .append (.bracketed h'') (hend₂ more h h')
    refine (Descriptor.binaryName_inverts.bind_print (a := (package, simple))
      ⟨hpackage, hsimple⟩ (hend₁ _ (by decide) (by decide) (by decide))).trans ?_
    refine ((arguments_inverts harg).bind_print hall (hend₂ _ (by decide) (by decide))).trans ?_
    refine (hinner.bind_print hsegments (hend₃ _ (by decide))).trans ?_
    exact symbol_bind_some.mpr ⟨rest, rfl, rfl⟩
  · intro t rest c hread
    obtain ⟨⟨package, simple⟩, t₁, ⟨hpackage, hsimple⟩, rfl, h₁⟩ :=
      Descriptor.binaryName_inverts.of_bind hread
    obtain ⟨as, t₂, hall, rfl, h₂⟩ := (arguments_inverts harg).of_bind h₁
    obtain ⟨inner, t₃, hsegments, rfl, h₃⟩ := hinner.of_bind h₂
    obtain ⟨t₄, rfl, h₄⟩ := symbol_bind_some.mp h₃
    obtain ⟨rfl, rfl⟩ := pure_some.mp h₄
    refine ⟨⟨hpackage, ⟨hsimple, hall⟩, hsegments⟩, ?_⟩
    simp [ClassType.printBody]

theorem elementType_inverts :
    (elementType argument).Inverts (ElementType.WellFormedWith ok) ElementType.print
      fun _ => False := by
  refine ⟨?_, ?_⟩
  · intro e rest hok _
    match e with
    | .primitive p =>
      refine next_bind_some.mpr ⟨_, rest, rfl, ?_⟩
      cases p <;> rfl
    | .variable n =>
      have hprint : ElementType.print (.variable n) ++ rest =
          .scalar 'T' :: (n ++ .scalar ';' :: rest) := by
        simp [ElementType.print]
      rw [hprint]
      refine next_bind_some.mpr ⟨.scalar 'T', _, rfl, ?_⟩
      refine (name_inverts.bind_print hok (.cons (by decide))).trans ?_
      exact symbol_bind_some.mpr ⟨rest, rfl, rfl⟩
    | .object c =>
      rw [ElementType.print, ClassType.print_eq, List.cons_append]
      refine next_bind_some.mpr ⟨.scalar 'L', _, rfl, ?_⟩
      exact (classBody_inverts harg).bind_print hok .never
  · intro t rest e hread
    obtain ⟨p, t₁, rfl, h₁⟩ := next_bind_some.mp hread
    split at h₁
    · obtain ⟨c, t₂, hok, rfl, h₂⟩ := (classBody_inverts harg).of_bind h₁
      obtain ⟨rfl, rfl⟩ := pure_some.mp h₂
      refine ⟨hok, ?_⟩
      rw [ElementType.print, ClassType.print_eq]
      rfl
    · obtain ⟨n, t₂, hn, rfl, h₂⟩ := name_inverts.of_bind h₁
      obtain ⟨t₃, rfl, h₃⟩ := symbol_bind_some.mp h₂
      obtain ⟨rfl, rfl⟩ := pure_some.mp h₃
      refine ⟨hn, ?_⟩
      simp [ElementType.print]
    · obtain ⟨type, rfl, rfl, rfl⟩ := primitive_some h₁
      exact ⟨trivial, rfl⟩

theorem typeWith_inverts :
    (typeWith argument).Inverts (fun t => t.element.WellFormedWith ok) JavaType.print
      fun _ => False :=
  dimensioned_inverts (elementType_inverts harg)

theorem referenceWith_inverts :
    (referenceWith argument).Inverts
      (fun t => t.isReference = true ∧ t.element.WellFormedWith ok) JavaType.print
      fun _ => False := by
  refine ⟨?_, ?_⟩
  · intro t rest hok _
    obtain ⟨href, hwell⟩ := hok
    refine ((typeWith_inverts harg).bind_print hwell .never).trans ?_
    exact guard_bind_some.mpr ⟨href, rfl⟩
  · intro t rest type hread
    obtain ⟨type', t₁, hwell, rfl, h₁⟩ := (typeWith_inverts harg).of_bind hread
    obtain ⟨href, h₂⟩ := guard_bind_some.mp h₁
    obtain ⟨rfl, rfl⟩ := pure_some.mp h₂
    exact ⟨⟨href, hwell⟩, rfl⟩

theorem argumentWith_inverts :
    (argumentWith argument).Inverts (TypeArgument.WellFormedWith ok) TypeArgument.print
      fun _ => False := by
  have htype := referenceWith_inverts harg
  refine ⟨?_, ?_⟩
  · intro a rest hok _
    show (peek >>= _) _ = _
    rw [peek_bind]
    match a with
    | .any => rfl
    | .bounded .covariant t =>
      exact symbol_bind_some.mpr ⟨t.print ++ rest, rfl, htype.bind_print hok .never⟩
    | .bounded .contravariant t =>
      exact symbol_bind_some.mpr ⟨t.print ++ rest, rfl, htype.bind_print hok .never⟩
    | .bounded .exact t =>
      obtain ⟨c, hc, u, hprint⟩ := t.print_eq_cons
      have hhead : (TypeArgument.print (.bounded .exact t) ++ rest).head? = some (.scalar c) := by
        show (t.print ++ rest).head? = _
        rw [hprint]
        rfl
      generalize (TypeArgument.print (.bounded .exact t) ++ rest).head? = o at hhead
      -- No type begins with one of the three signs.
      split
      · cases hhead
        exact absurd hc (by decide)
      · cases hhead
        exact absurd hc (by decide)
      · cases hhead
        exact absurd hc (by decide)
      · exact htype.bind_print hok .never
  · intro t rest a hread
    obtain ⟨o, t₁, hpeek, h₁⟩ := bind_some.mp hread
    obtain ⟨-, rfl⟩ := peek_some.mp hpeek
    split at h₁
    · obtain ⟨t₂, rfl, h₂⟩ := symbol_bind_some.mp h₁
      obtain ⟨rfl, rfl⟩ := pure_some.mp h₂
      exact ⟨trivial, rfl⟩
    · obtain ⟨t₂, rfl, h₂⟩ := symbol_bind_some.mp h₁
      obtain ⟨type, t₃, hok, rfl, h₃⟩ := htype.of_bind h₂
      obtain ⟨rfl, rfl⟩ := pure_some.mp h₃
      exact ⟨hok, rfl⟩
    · obtain ⟨t₂, rfl, h₂⟩ := symbol_bind_some.mp h₁
      obtain ⟨type, t₃, hok, rfl, h₃⟩ := htype.of_bind h₂
      obtain ⟨rfl, rfl⟩ := pure_some.mp h₃
      exact ⟨hok, rfl⟩
    · obtain ⟨type, t₃, hok, rfl, h₃⟩ := htype.of_bind h₁
      obtain ⟨rfl, rfl⟩ := pure_some.mp h₃
      exact ⟨hok, rfl⟩

end Arguments

theorem argumentWithin_inverts (n : Nat) :
    (argumentWithin n).Inverts (TypeArgument.WellFormedWithin n) TypeArgument.print
      fun _ => False := by
  induction n with
  | zero =>
      refine ⟨fun _ hok => absurd hok id, ?_⟩
      intro t rest a h
      cases h
  | succ n ih => exact argumentWith_inverts ih

/-- The length of the text is a bound that never keeps an argument from being read. -/
theorem argument_inverts :
    argument.Inverts TypeArgument.WellFormed TypeArgument.print fun _ => False := by
  refine ⟨?_, ?_⟩
  · intro a rest hok hrest
    -- An argument nests no deeper than it is long.
    have hlen : a.print.length ≤ (a.print ++ rest).length := by
      rw [List.length_append]
      exact Nat.le_add_right ..
    exact (argumentWithin_inverts _).accepts _ (hok.within hlen) hrest
  · intro t rest a h
    obtain ⟨hok, ht⟩ := (argumentWithin_inverts t.length).explains h
    exact ⟨TypeArgument.WellFormedWithin.wellFormed hok, ht⟩

theorem classType_inverts :
    (classBody argument).Inverts ClassType.WellFormed ClassType.printBody fun _ => False :=
  (classBody_inverts argument_inverts).congr fun c => c.wellFormed_iff.symm

theorem javaType_inverts :
    javaType.Inverts JavaType.WellFormed JavaType.print fun _ => False :=
  (typeWith_inverts argument_inverts).congr fun t => t.wellFormed_iff.symm

theorem referenceType_inverts :
    referenceType.Inverts (fun t => t.isReference = true ∧ t.WellFormed) JavaType.print
      fun _ => False :=
  (referenceWith_inverts argument_inverts).congr fun t =>
    and_congr_right fun _ => t.wellFormed_iff.symm

theorem returnType_inverts :
    returnType.Inverts ReturnType.WellFormed ReturnType.print fun _ => False := by
  refine (returned_inverts javaType_inverts).congr fun r => ?_
  cases r with
  | void => exact Iff.rfl
  | value t => exact Iff.rfl

/-- The bounds of a type parameter after the class bound, each with its colon. -/
theorem bounds_inverts :
    (following ':' referenceType).Inverts
      (fun bs => ∀ b ∈ bs, b.isReference = true ∧ b.WellFormed)
      (fun bs => bs.flatMap fun b => .scalar ':' :: b.print) (· = .scalar ':') := by
  refine ⟨fun _ hok hrest => ?_, (referenceType_inverts.following ':' id).explains⟩
  exact (referenceType_inverts.following ':' id).accepts _ hok
    (hrest.mono fun p hp => hp.resolve_right id)

/--
A type parameter ends where its bounds end.  Its name is told from a type by the colon
that follows it, so it may begin with any letter.
-/
theorem typeParameter_inverts :
    typeParameter.Inverts TypeParameter.WellFormed TypeParameter.print (· = .scalar ':') := by
  have hcolon : ∀ rest, Text.Ends (isNamePart · = true) (.scalar ':' :: rest) :=
    fun rest => .cons (by decide)
  refine ⟨?_, ?_⟩
  · intro p rest hok hrest
    obtain ⟨n, classBound, bounds⟩ := p
    obtain ⟨hname, hne, hall⟩ := hok
    cases classBound with
    | none =>
        have hbounds : ∀ b ∈ bounds, b.isReference = true ∧ b.WellFormed := hall
        have hprint : TypeParameter.print ⟨n, none, bounds⟩ ++ rest =
            n ++ .scalar ':' :: ((bounds.flatMap fun b => .scalar ':' :: b.print) ++ rest) := by
          simp [TypeParameter.print]
        rw [hprint]
        refine (name_inverts.bind_print hname (hcolon _)).trans ?_
        refine symbol_bind_some.mpr ⟨_, rfl, ?_⟩
        rw [peek_bind]
        cases bounds with
        | nil => exact absurd rfl hne
        | cons b bounds =>
            rw [List.flatMap_cons, List.cons_append, List.cons_append, List.head?_cons, if_pos rfl]
            exact bounds_inverts.bind_print hbounds hrest
    | some bound =>
        obtain ⟨hbound, hbounds⟩ : (bound.isReference = true ∧ bound.WellFormed) ∧
            ∀ b ∈ bounds, b.isReference = true ∧ b.WellFormed := List.forall_mem_cons.mp hall
        have hprint : TypeParameter.print ⟨n, some bound, bounds⟩ ++ rest =
            n ++ .scalar ':' ::
              (bound.print ++ ((bounds.flatMap fun b => .scalar ':' :: b.print) ++ rest)) := by
          simp [TypeParameter.print]
        rw [hprint]
        refine (name_inverts.bind_print hname (hcolon _)).trans ?_
        refine symbol_bind_some.mpr ⟨_, rfl, ?_⟩
        obtain ⟨p, u, hstart, hp, -⟩ := bound.starts ':' (by decide)
        rw [peek_bind, if_neg (by simpa [hstart] using hp)]
        refine (referenceType_inverts.bind_print hbound .never).trans ?_
        exact bounds_inverts.bind_print hbounds hrest
  · intro t rest p hread
    obtain ⟨n, t₁, hn, rfl, h₁⟩ := name_inverts.of_bind hread
    obtain ⟨t₂, rfl, h₂⟩ := symbol_bind_some.mp h₁
    rw [peek_bind] at h₂
    split at h₂
    · rename_i hhead
      obtain ⟨bounds, t₃, hbounds, h₃⟩ := bind_some.mp h₂
      obtain ⟨rfl, rfl⟩ := pure_some.mp h₃
      have hne := following_ne_nil hbounds hhead
      obtain ⟨hall, rfl⟩ := bounds_inverts.explains hbounds
      refine ⟨⟨hn, hne, hall⟩, ?_⟩
      simp [TypeParameter.print]
    · obtain ⟨bound, t₃, hok, rfl, h₃⟩ := referenceType_inverts.of_bind h₂
      obtain ⟨bounds, t₄, hall, rfl, h₄⟩ := bounds_inverts.of_bind h₃
      obtain ⟨rfl, rfl⟩ := pure_some.mp h₄
      refine ⟨⟨hn, List.cons_ne_nil _ _, List.forall_mem_cons.mpr ⟨hok, hall⟩⟩, ?_⟩
      simp [TypeParameter.print]

theorem typeParameters_inverts :
    typeParameters.Inverts (fun ps => ∀ p ∈ ps, p.WellFormed) TypeParameter.printAll
      (· = .scalar '<') := by
  have hstart : ∀ p : TypeParameter, p.WellFormed →
      ∃ c rest, p.print = c :: rest ∧ c ≠ .scalar '>' ∧ ¬ c = .scalar ':' := by
    intro p hp
    obtain ⟨c, rest, hprint, hc⟩ := TypeParameter.print_eq_cons hp.name
    refine ⟨c, rest, hprint, ?_, ?_⟩
    · rintro rfl
      exact absurd hc (by decide)
    · rintro rfl
      exact absurd hc (by decide)
  have hprint : TypeParameter.printAll = Text.bracketed TypeParameter.print :=
    funext TypeParameter.printAll_eq
  rw [hprint]
  exact typeParameter_inverts.bracketed (by decide) hstart

theorem thrownType_inverts :
    thrownType.Inverts JavaType.Throwable JavaType.print fun _ => False := by
  have helement := elementType_inverts argument_inverts
  refine ⟨?_, ?_⟩
  · intro t rest hok _
    obtain ⟨e, n⟩ := t
    obtain ⟨rfl, href, hwell⟩ := hok
    have hok := (JavaType.wellFormed_iff ⟨e, _⟩).mp hwell
    refine (helement.bind_print hok .never).trans ?_
    cases e with
    | primitive p => cases href
    | _ => rfl
  · intro t rest type hread
    obtain ⟨e, t₁, hok, rfl, h₁⟩ := helement.of_bind hread
    have hwell : (JavaType.ofElement e).WellFormed := (JavaType.wellFormed_iff ⟨e, 0⟩).mpr hok
    split at h₁
    · cases h₁
    · rename_i hne
      obtain ⟨rfl, rfl⟩ := pure_some.mp h₁
      refine ⟨⟨rfl, ?_, hwell⟩, rfl⟩
      cases e with
      | primitive p => exact absurd rfl (hne p)
      | _ => rfl

theorem methodType_inverts :
    methodType.Inverts MethodType.WellFormed MethodType.print (· = .scalar '^') := by
  have hparameters := javaType_inverts.untilSymbol ')' id
    fun t _ => t.starts ')' (by decide)
  have hthrows := thrownType_inverts.following '^' id
  refine ⟨?_, ?_⟩
  · intro m rest hok hrest
    obtain ⟨typeParameters, parameters, result, throws⟩ := m
    obtain ⟨hgeneric, hwell, hresult, hthrown⟩ := hok
    have hprint : MethodType.print ⟨typeParameters, parameters, result, throws⟩ ++ rest =
        TypeParameter.printAll typeParameters ++ CodePoint.scalar '(' ::
          (parameters.flatMap JavaType.print ++ [CodePoint.scalar ')'] ++
            (result.print ++ ((throws.flatMap fun t => .scalar '^' :: t.print) ++ rest))) := by
      simp [MethodType.print]
    rw [hprint]
    have hopen : ∀ rest, Text.Ends (· = .scalar '<') (.scalar '(' :: rest) :=
      fun rest => .cons (by decide)
    refine (typeParameters_inverts.bind_print hgeneric (hopen _)).trans ?_
    refine symbol_bind_some.mpr ⟨_, rfl, (hparameters.bind_print hwell .never).trans ?_⟩
    refine (returnType_inverts.bind_print hresult .never).trans ?_
    exact hthrows.bind_print hthrown (hrest.mono fun p hp => hp.resolve_right id)
  · intro t rest m hread
    obtain ⟨typeParameters, t₁, hgeneric, rfl, h₁⟩ := typeParameters_inverts.of_bind hread
    obtain ⟨t₂, rfl, h₂⟩ := symbol_bind_some.mp h₁
    obtain ⟨types, t₃, hwell, rfl, h₃⟩ := hparameters.of_bind h₂
    obtain ⟨result, t₄, hresult, rfl, h₄⟩ := returnType_inverts.of_bind h₃
    obtain ⟨throws, t₅, hthrown, rfl, h₅⟩ := hthrows.of_bind h₄
    obtain ⟨rfl, rfl⟩ := pure_some.mp h₅
    refine ⟨⟨hgeneric, hwell, hresult, hthrown⟩, ?_⟩
    simp [MethodType.print]

theorem classSignature_inverts :
    classSignature.Inverts ClassSignature.WellFormed ClassSignature.print (· = .scalar 'L') := by
  have hclasses := classType_inverts.following 'L' id
  have hprint : ClassType.print = fun c => .scalar 'L' :: c.printBody := funext ClassType.print_eq
  refine ⟨?_, ?_⟩
  · intro c rest hok hrest
    obtain ⟨typeParameters, superclass, interfaces⟩ := c
    obtain ⟨hgeneric, hsuper, hinterfaces⟩ := hok
    have htext : ClassSignature.print ⟨typeParameters, superclass, interfaces⟩ ++ rest =
        TypeParameter.printAll typeParameters ++
          (((superclass :: interfaces).flatMap fun c => .scalar 'L' :: c.printBody) ++ rest) := by
      simp [ClassSignature.print, hprint]
    rw [htext]
    have hopen : ∀ rest, Text.Ends (· = .scalar '<') (.scalar 'L' :: rest) :=
      fun rest => .cons (by decide)
    refine (typeParameters_inverts.bind_print hgeneric (hopen _)).trans ?_
    exact hclasses.bind_print (List.forall_mem_cons.mpr ⟨hsuper, hinterfaces⟩)
      (hrest.mono fun p hp => hp.resolve_right id)
  · intro t rest c hread
    obtain ⟨typeParameters, t₁, hgeneric, rfl, h₁⟩ := typeParameters_inverts.of_bind hread
    obtain ⟨classes, t₂, hall, rfl, h₂⟩ := hclasses.of_bind h₁
    split at h₂
    · cases h₂
    · obtain ⟨rfl, rfl⟩ := pure_some.mp h₂
      obtain ⟨hsuper, hinterfaces⟩ := List.forall_mem_cons.mp hall
      refine ⟨⟨hgeneric, hsuper, hinterfaces⟩, ?_⟩
      simp [ClassSignature.print, hprint]

end Signature

end ClassFormat
