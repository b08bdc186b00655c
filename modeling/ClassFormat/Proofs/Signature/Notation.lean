/-
The notation of types, list by list.

The printer of types follows their structure, and so its lists are spelled out one item
at a time.  Here they are the usual operations on lists.  It is also said with which
letters a type can begin, since that is how a reader tells an item from the end of a
list.

A type argument is shorter than the type that it stands in.  Therefore a bound on the
length of a text is a bound on how deep arguments nest in it.
-/
import ClassFormat.Proofs.Signature.WellFormed
import ClassFormat.Proofs.Text.Joined

namespace ClassFormat

/-- A list between brackets; an empty list leaves no trace. -/
def Text.bracketed {α : Type} (print : α → Text) : List α → Text
  | [] => []
  | a :: rest => .scalar '<' :: (a :: rest).flatMap print ++ [.scalar '>']

theorem Text.length_lt_bracketed {α : Type} (print : α → Text) {as : List α} {a : α}
    (h : a ∈ as) : (print a).length < (bracketed print as).length := by
  have hle : (print a).length ≤ (as.flatMap print).length := by
    obtain ⟨front, back, rfl⟩ := List.append_of_mem h
    rw [List.flatMap_append, List.flatMap_cons, List.length_append, List.length_append]
    omega
  cases as with
  | nil => cases h
  | cons b rest =>
      simp only [bracketed, List.cons_append, List.length_cons, List.length_append]
      omega

/--
Names that a slash follows each, and one more name, are a name and more names that a
slash precedes each.
-/
theorem Text.exists_names (package : List Text) (simple : Text) :
    ∃ first more, package ++ [simple] = first :: more ∧
      package.flatMap (· ++ [CodePoint.scalar '/']) ++ simple =
        first ++ more.flatMap fun n => CodePoint.scalar '/' :: n := by
  induction package with
  | nil => exact ⟨simple, [], rfl, (List.append_nil simple).symm⟩
  | cons n package ih =>
      obtain ⟨first, more, hnames, htext⟩ := ih
      refine ⟨n, first :: more, by rw [List.cons_append, hnames], ?_⟩
      rw [List.flatMap_cons, List.append_assoc, htext, List.flatMap_cons]
      simp

theorem TypeArgument.printAll_eq (arguments : List TypeArgument) :
    printAll arguments = arguments.flatMap print := by
  induction arguments with
  | nil => rfl
  | cons a rest ih => rw [printAll, ih, List.flatMap_cons]

theorem ClassSegment.print_eq (s : ClassSegment) :
    s.print = s.name ++ Text.bracketed TypeArgument.print s.arguments := by
  obtain ⟨name, arguments⟩ := s
  cases arguments with
  | nil => exact (List.append_nil name).symm
  | cons a rest =>
      simp only [print, Text.bracketed, TypeArgument.printAll_eq, List.flatMap_cons,
        List.cons_append, List.append_assoc]

theorem ClassSegment.printInner_eq (segments : List ClassSegment) :
    printInner segments = segments.flatMap fun s => .scalar '.' :: s.print := by
  induction segments with
  | nil => rfl
  | cons s rest ih => rw [printInner, ih, List.flatMap_cons]

/-- A class type in the notation of class files, without its first letter. -/
def ClassType.printBody (c : ClassType) : Text :=
  (c.package.flatMap (· ++ [.scalar '/']) ++ c.outer.name) ++
    (Text.bracketed TypeArgument.print c.outer.arguments ++
      ((c.inner.flatMap fun s => .scalar '.' :: s.print) ++ [.scalar ';']))

theorem ClassType.print_eq (c : ClassType) : c.print = .scalar 'L' :: c.printBody := by
  obtain ⟨package, outer, inner⟩ := c
  rw [print, printBody, ClassSegment.printInner_eq, outer.print_eq]
  simp only [List.cons_append, List.append_assoc]

theorem TypeParameter.printAll_eq (parameters : List TypeParameter) :
    printAll parameters = Text.bracketed print parameters := by
  cases parameters with
  | nil => rfl
  | cons p rest => rw [printAll, Text.bracketed, List.flatMap_cons, List.cons_append,
      List.cons_append]

theorem JavaType.print_zero (e : ElementType) : print ⟨e, 0⟩ = e.print := rfl

theorem JavaType.print_succ (e : ElementType) (n : Nat) :
    print ⟨e, n + 1⟩ = [CodePoint.scalar '['] ++ print ⟨e, n⟩ := rfl

/-- The letters that a type can begin with if it is not an array. -/
def ElementType.leads : List Char :=
  'L' :: 'T' :: Primitive.all.map Primitive.letter

/-- The letters that a type can begin with. -/
def JavaType.leads : List Char :=
  '[' :: ElementType.leads

theorem ElementType.print_eq_cons (e : ElementType) :
    ∃ c ∈ leads, ∃ rest, e.print = .scalar c :: rest := by
  match e with
  | .primitive p => exact ⟨p.letter, by cases p <;> decide, [], rfl⟩
  | .variable n => exact ⟨'T', by decide, n ++ [CodePoint.scalar ';'], rfl⟩
  | .object c => exact ⟨'L', by decide, c.printBody, c.print_eq⟩

theorem JavaType.print_eq_cons (t : JavaType) :
    ∃ c ∈ leads, ∃ rest, t.print = .scalar c :: rest := by
  obtain ⟨e, n⟩ := t
  cases n with
  | zero =>
      obtain ⟨c, hc, rest, hprint⟩ := e.print_eq_cons
      exact ⟨c, List.mem_cons_of_mem _ hc, rest, hprint⟩
  | succ n =>
      refine ⟨'[', by decide, List.replicate n (CodePoint.scalar '[') ++ e.print, ?_⟩
      rw [print, List.replicate_succ, List.cons_append]

/-- A type argument begins with a sign or as a type does. -/
theorem TypeArgument.print_eq_cons (a : TypeArgument) :
    ∃ c ∈ '*' :: '+' :: '-' :: JavaType.leads, ∃ rest, a.print = .scalar c :: rest := by
  cases a with
  | any => exact ⟨'*', by decide, [], rfl⟩
  | bounded v t =>
      cases v with
      | exact =>
          obtain ⟨c, hc, rest, hprint⟩ := t.print_eq_cons
          exact ⟨c, by simp [hc], rest, hprint⟩
      | covariant => exact ⟨'+', by decide, t.print, rfl⟩
      | contravariant => exact ⟨'-', by decide, t.print, rfl⟩

/-! ### The package as one text -/

namespace ClassType.WellFormed

variable {c d : ClassType}

theorem package_names (h : c.WellFormed) : ∀ n ∈ c.package, n ≠ [] ∧ CodePoint.scalar '/' ∉ n := by
  intro n hn
  obtain ⟨hne, hletters⟩ := ((ClassType.wellFormed_iff c).mp h).package n hn
  exact ⟨hne, fun hslash => hletters _ hslash (by simp)⟩

/-- The text of the package is what stands before the last slash of the whole name. -/
theorem splitLast_name (h : c.WellFormed) :
    Text.splitLast '/' (c.package.flatMap (· ++ [CodePoint.scalar '/']) ++ c.outer.name) =
      (c.packageName, c.outer.name) := by
  have hname : CodePoint.scalar '/' ∉ c.outer.name := fun hslash =>
    ((ClassType.wellFormed_iff c).mp h).outer.1.2 _ hslash (by simp)
  by_cases hne : c.package = []
  · rw [packageName, hne]
    exact Text.splitLast_of_not_mem hname
  · rw [Text.flatMap_append_separator hne, List.append_assoc]
    exact Text.splitLast_append hname _

/--
Two class types are the same if the texts of their packages are and the segments after
them.
-/
theorem eq_iff_packageName (hc : c.WellFormed) (hd : d.WellFormed) :
    c = d ↔ c.packageName = d.packageName ∧ c.segments = d.segments := by
  refine ⟨?_, ?_⟩
  · rintro rfl
    exact ⟨rfl, rfl⟩
  · intro h
    obtain ⟨hname, hsegments⟩ := h
    have hpackage := Text.join_injective hc.package_names hd.package_names hname
    obtain ⟨package, outer, inner⟩ := c
    obtain ⟨package', outer', inner'⟩ := d
    obtain ⟨rfl, rfl⟩ := List.cons.inj hsegments
    rw [ClassType.mk.injEq]
    exact ⟨hpackage, rfl, rfl⟩

end ClassType.WellFormed

/-! ### Arguments are shorter than what they stand in -/

section Shorter

variable {ok ok' : TypeArgument → Prop}

theorem ClassSegment.WellFormedWith.imp {s : ClassSegment} (h : s.WellFormedWith ok)
    (hok : ∀ a, ok a → a.print.length < s.print.length → ok' a) : s.WellFormedWith ok' := by
  refine ⟨h.1, fun a ha => hok a (h.2 a ha) ?_⟩
  have := Text.length_lt_bracketed TypeArgument.print ha
  rw [s.print_eq, List.length_append]
  omega

theorem ClassType.WellFormedWith.imp {c : ClassType} (h : c.WellFormedWith ok)
    (hok : ∀ a, ok a → a.print.length < c.print.length → ok' a) : c.WellFormedWith ok' := by
  have hprint : c.print.length = (c.package.flatMap (· ++ [CodePoint.scalar '/'])).length +
      c.outer.print.length + (c.inner.flatMap fun s => .scalar '.' :: s.print).length + 2 := by
    rw [c.print_eq, ClassType.printBody, c.outer.print_eq]
    simp only [List.length_cons, List.length_append, List.length_nil]
    omega
  refine ⟨h.package, h.outer.imp fun a ha hlt => hok a ha (by omega), fun s hs => ?_⟩
  have hlt : s.print.length < (c.inner.flatMap fun s => .scalar '.' :: s.print).length := by
    obtain ⟨front, back, hinner⟩ := List.append_of_mem hs
    rw [hinner, List.flatMap_append, List.flatMap_cons, List.length_append, List.length_append,
      List.length_cons]
    omega
  exact (h.inner s hs).imp fun a ha hlt' => hok a ha (by omega)

theorem ElementType.WellFormedWith.imp {e : ElementType} (h : e.WellFormedWith ok)
    (hok : ∀ a, ok a → a.print.length < e.print.length → ok' a) : e.WellFormedWith ok' := by
  cases e with
  | object c => exact ClassType.WellFormedWith.imp h hok
  | _ => exact h

theorem TypeArgument.WellFormedWith.imp {a : TypeArgument} (h : a.WellFormedWith ok)
    (hok : ∀ b, ok b → b.print.length < a.print.length → ok' b) : a.WellFormedWith ok' := by
  cases a with
  | any => exact h
  | bounded v t =>
      refine ⟨h.1, ElementType.WellFormedWith.imp h.2 fun b hb hlt => hok b hb ?_⟩
      obtain ⟨e, n⟩ := t
      rw [print, JavaType.print, List.length_append, List.length_append]
      have : b.print.length < e.print.length := hlt
      omega

end Shorter

/-- The argument is well formed, and arguments nest no deeper in it than a given bound. -/
def TypeArgument.WellFormedWithin : Nat → TypeArgument → Prop
  | 0 => fun _ => False
  | n + 1 => fun a => a.WellFormedWith (WellFormedWithin n)

theorem TypeArgument.WellFormedWithin.wellFormed {n : Nat} {a : TypeArgument}
    (h : WellFormedWithin n a) : a.WellFormed := by
  induction n generalizing a with
  | zero => exact absurd h id
  | succ n ih => exact a.wellFormed_iff.mpr (TypeArgument.WellFormedWith.imp h fun b hb _ => ih hb)

/-- Arguments nest no deeper than the notation is long. -/
theorem TypeArgument.WellFormed.within {n : Nat} {a : TypeArgument} (h : a.WellFormed)
    (hn : a.print.length ≤ n) : WellFormedWithin n a := by
  induction n generalizing a with
  | zero =>
      obtain ⟨c, -, rest, hprint⟩ := a.print_eq_cons
      rw [hprint] at hn
      cases hn
  | succ n ih => exact (a.wellFormed_iff.mp h).imp fun b hb hlt => ih hb (by omega)

end ClassFormat
