/-
How the name of a type ends.

A pair of brackets is written behind an element type for each dimension of an array.  Whether a
type is an array can therefore be told from the end of its name, since no element type has a name
that ends in a pair of brackets: a name has no opening bracket in it, and one inside a type argument
stands before the angle bracket that ends the arguments (`Enclosed`).  Periods stand between names
and never last (`Closed`), so no name ends in an ellipsis.
-/
import ClassFormat.Signature.JavaName
import ClassFormat.Proofs.Signature.WellFormed
import ClassFormat.Proofs.Text.Joined

namespace ClassFormat

namespace Text

/-- Behind every opening bracket the text has an angle bracket. -/
def Enclosed (t : Text) : Prop :=
  ∀ front back, t = front ++ .scalar '[' :: back → CodePoint.scalar '>' ∈ back

/-- The text has a last code point, and it is no period. -/
def Closed (t : Text) : Prop :=
  ∃ last, t.getLast? = some last ∧ last ≠ .scalar '.'

/-! ### Brackets -/

theorem Enclosed.of_not_mem {t : Text} (h : CodePoint.scalar '[' ∉ t) : t.Enclosed := by
  rintro front back rfl
  exact absurd (List.mem_append_right _ (List.mem_cons_self ..)) h

theorem Enclosed.append {s t : Text} (hs : s.Enclosed) (ht : t.Enclosed) :
    (s ++ t).Enclosed := by
  intro front back h
  rcases List.append_eq_append_iff.mp h with ⟨mid, -, h⟩ | ⟨mid, hfront, h⟩
  · exact ht mid back h
  · cases mid with
    | nil => exact ht [] back h.symm
    | cons p mid =>
        obtain ⟨rfl, rfl⟩ := List.cons.inj h
        exact List.mem_append_left _ (hs front mid hfront)

/-- An angle bracket at the end is behind all brackets. -/
theorem enclosed_concat (t : Text) : (t ++ [CodePoint.scalar '>']).Enclosed := by
  intro front back h
  have hlast : (front ++ .scalar '[' :: back).getLast? = some (.scalar '>') := by
    rw [← h, List.getLast?_concat]
  rw [List.getLast?_append, List.getLast?_cons, Option.some_or] at hlast
  cases hback : back.getLast? with
  | none =>
      rw [hback] at hlast
      cases hlast
  | some last =>
      rw [hback] at hlast
      cases hlast
      exact List.mem_of_getLast? hback

theorem Enclosed.not_endsIn {t : Text} (h : t.Enclosed) : ¬ t.endsIn "[]" = true := by
  intro hend
  obtain ⟨front, rfl⟩ := List.isSuffixOf_iff_suffix.mp hend
  exact absurd (h front [.scalar ']'] rfl) (by decide)

/-! ### Periods -/

theorem Closed.append (s : Text) {t : Text} (h : t.Closed) : (s ++ t).Closed := by
  obtain ⟨last, ht, hlast⟩ := h
  exact ⟨last, by rw [List.getLast?_append, ht, Option.some_or], hlast⟩

theorem Closed.not_endsIn {t : Text} (h : t.Closed) : ¬ t.endsIn "..." = true := by
  intro hend
  obtain ⟨front, rfl⟩ := List.isSuffixOf_iff_suffix.mp hend
  obtain ⟨last, hlast, hne⟩ := h
  rw [List.getLast?_append] at hlast
  exact hne (Option.some.inj hlast).symm

/-! ### Names -/

theorem IsName.enclosed {n : Text} (h : n.IsName) : n.Enclosed :=
  .of_not_mem fun hmem => h.2 _ hmem (by decide)

theorem IsName.closed {n : Text} (h : n.IsName) : n.Closed := by
  refine ⟨n.getLast h.1, List.getLast?_eq_some_getLast h.1, fun hdot => ?_⟩
  refine h.2 _ (List.getLast_mem h.1) ?_
  rw [hdot]
  decide

end Text

variable {qualified : Bool}

theorem Primitive.isName_keyword (p : Primitive) : (p.keyword : Text).IsName := by
  cases p <;> decide

namespace ClassSegment

theorem enclosed_javaName {s : ClassSegment} (h : s.WellFormed) :
    (s.javaName qualified).Enclosed := by
  obtain ⟨name, arguments⟩ := s
  cases arguments with
  | nil => exact h.1.enclosed
  | cons a rest => exact Text.enclosed_concat _

theorem closed_javaName {s : ClassSegment} (h : s.WellFormed) :
    (s.javaName qualified).Closed := by
  obtain ⟨name, arguments⟩ := s
  cases arguments with
  | nil => exact h.1.closed
  | cons a rest => exact ⟨.scalar '>', List.getLast?_concat, by decide⟩

theorem enclosed_javaNameInner {segments : List ClassSegment} (h : WellFormedAll segments) :
    (javaNameInner qualified segments).Enclosed := by
  induction segments with
  | nil => exact .of_not_mem List.not_mem_nil
  | cons s rest ih =>
      have hdot : Text.Enclosed [.scalar '.'] := .of_not_mem (by decide)
      exact (hdot.append (enclosed_javaName h.1)).append (ih h.2)

/-- What the names of nested classes are added to is closed before and stays so. -/
theorem closed_append_javaNameInner {segments : List ClassSegment} (h : WellFormedAll segments)
    {outer : Text} (houter : outer.Closed) :
    (outer ++ javaNameInner qualified segments).Closed := by
  induction segments generalizing outer with
  | nil => rwa [javaNameInner, List.append_nil]
  | cons s rest ih =>
      have hs : (outer ++ .scalar '.' :: s.javaName qualified).Closed :=
        .append outer (.append [.scalar '.'] (closed_javaName h.1))
      rw [javaNameInner, ← List.append_assoc]
      exact ih h.2 hs

end ClassSegment

theorem ClassType.enclosed_javaName {c : ClassType} (h : c.WellFormed) :
    (c.javaName qualified).Enclosed := by
  obtain ⟨package, outer, inner⟩ := c
  obtain ⟨hpackage, houter, hinner⟩ := h
  have hqualifier : Text.Enclosed
      (if qualified then package.flatMap (· ++ [CodePoint.scalar '.']) else []) := by
    refine .of_not_mem fun hmem => ?_
    by_cases hq : qualified
    · rw [if_pos hq] at hmem
      obtain ⟨n, hn, hmem⟩ := List.mem_flatMap.mp hmem
      rcases List.mem_append.mp hmem with hmem | hmem
      · exact (hpackage n hn).2 _ hmem (by decide)
      · exact absurd (List.mem_singleton.mp hmem) (by decide)
    · rw [if_neg hq] at hmem
      cases hmem
  exact (hqualifier.append (ClassSegment.enclosed_javaName houter)).append
    (ClassSegment.enclosed_javaNameInner hinner)

theorem ClassType.closed_javaName {c : ClassType} (h : c.WellFormed) :
    (c.javaName qualified).Closed := by
  obtain ⟨package, outer, inner⟩ := c
  obtain ⟨-, houter, hinner⟩ := h
  exact ClassSegment.closed_append_javaNameInner hinner (.append _ (ClassSegment.closed_javaName houter))

theorem ElementType.enclosed_javaName {e : ElementType} (h : e.WellFormed) :
    (e.javaName qualified).Enclosed := by
  match e with
  | .primitive p => exact p.isName_keyword.enclosed
  | .variable n => exact Text.IsName.enclosed h
  | .object c => exact ClassType.enclosed_javaName h

theorem ElementType.closed_javaName {e : ElementType} (h : e.WellFormed) :
    (e.javaName qualified).Closed := by
  match e with
  | .primitive p => exact p.isName_keyword.closed
  | .variable n => exact Text.IsName.closed h
  | .object c => exact ClassType.closed_javaName h

namespace JavaType

theorem javaName_zero (e : ElementType) :
    javaName qualified ⟨e, 0⟩ = e.javaName qualified := by
  simp [javaName]

/-- The last pair of brackets stands for the outermost array. -/
theorem javaName_succ (e : ElementType) (n : Nat) :
    javaName qualified ⟨e, n + 1⟩ = javaName qualified ⟨e, n⟩ ++ "[]" := by
  rw [javaName, javaName, List.replicate_succ', List.flatten_append, List.flatten_singleton,
    List.append_assoc]

/-- A name ends in a pair of brackets exactly if the type is an array. -/
theorem endsIn_brackets_iff {t : JavaType} (h : t.WellFormed) :
    (t.javaName qualified).endsIn "[]" = true ↔ 0 < t.dimensions := by
  obtain ⟨e, n⟩ := t
  cases n with
  | zero =>
      rw [javaName_zero]
      exact iff_of_false (ElementType.enclosed_javaName h).not_endsIn (Nat.lt_irrefl 0)
  | succ n =>
      rw [javaName_succ]
      exact iff_of_true (Text.endsIn_append _ _) n.succ_pos

theorem closed_javaName {t : JavaType} (h : t.WellFormed) : (t.javaName qualified).Closed := by
  obtain ⟨e, n⟩ := t
  cases n with
  | zero =>
      rw [javaName_zero]
      exact ElementType.closed_javaName h
  | succ n =>
      rw [javaName_succ]
      exact .append _ ⟨.scalar ']', rfl, by decide⟩

end JavaType

end ClassFormat
