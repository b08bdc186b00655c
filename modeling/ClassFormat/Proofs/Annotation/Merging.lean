/-
Annotations whose elements have distinct names.

Putting an element behind others appends it as long as its name is new, so an
annotation in which no name is repeated, at any level, is merged to itself.
-/
import ClassFormat.Annotation
import Mathlib.Data.List.Nodup

namespace ClassFormat

mutual

/-- No annotation of the tree has two elements of one name. -/
def Annotation.Distinct : Annotation → Prop
  | ⟨_, elements⟩ => (elements.map Element.name).Nodup ∧ Element.DistinctAll elements

/-- No annotation inside the value has two elements of one name. -/
def ElementValue.Distinct : ElementValue → Prop
  | .literal .. | .string _ | .classInfo _ | .enumConstant .. => True
  | .nested content => content.Distinct
  | .array values => ElementValue.DistinctAll values

/-- No annotation inside the values has two elements of one name. -/
def Element.DistinctAll : List Element → Prop
  | [] => True
  | ⟨_, value⟩ :: rest => value.Distinct ∧ Element.DistinctAll rest

/-- No annotation inside the values has two elements of one name. -/
def ElementValue.DistinctAll : List ElementValue → Prop
  | [] => True
  | value :: rest => value.Distinct ∧ ElementValue.DistinctAll rest

end

mutual

/-- Whether names are repeated in an annotation. -/
def Annotation.decidableDistinct : (a : Annotation) → Decidable a.Distinct
  | ⟨_, elements⟩ =>
    have := Element.decidableDistinctAll elements
    inferInstanceAs (Decidable ((elements.map Element.name).Nodup ∧
      Element.DistinctAll elements))

/-- Whether names are repeated in a value. -/
def ElementValue.decidableDistinct : (v : ElementValue) → Decidable v.Distinct
  | .literal .. | .string _ | .classInfo _ | .enumConstant .. => isTrue trivial
  | .nested content => content.decidableDistinct
  | .array values => ElementValue.decidableDistinctAll values

/-- Whether names are repeated in the values of elements. -/
def Element.decidableDistinctAll : (xs : List Element) → Decidable (Element.DistinctAll xs)
  | [] => isTrue trivial
  | ⟨_, value⟩ :: rest =>
    have := value.decidableDistinct
    have := Element.decidableDistinctAll rest
    inferInstanceAs (Decidable (value.Distinct ∧ Element.DistinctAll rest))

/-- Whether names are repeated in values. -/
def ElementValue.decidableDistinctAll :
    (vs : List ElementValue) → Decidable (ElementValue.DistinctAll vs)
  | [] => isTrue trivial
  | value :: rest =>
    have := value.decidableDistinct
    have := ElementValue.decidableDistinctAll rest
    inferInstanceAs (Decidable (value.Distinct ∧ ElementValue.DistinctAll rest))

end

instance (a : Annotation) : Decidable a.Distinct :=
  a.decidableDistinct

/-! ### Putting elements in place -/

theorem Element.put_of_new {xs : List Element} {e : Element} (h : e.name ∉ xs.map Element.name) :
    Element.put xs e = xs ++ [e] := by
  induction xs with
  | nil => rfl
  | cons x xs ih =>
      rw [List.map_cons, List.mem_cons, not_or] at h
      rw [Element.put, if_neg fun hx => h.1 hx.symm, ih h.2]
      rfl

theorem Element.foldl_put_of_nodup (xs ys : List Element)
    (h : ((xs ++ ys).map Element.name).Nodup) : ys.foldl Element.put xs = xs ++ ys := by
  induction ys generalizing xs with
  | nil => exact (List.append_nil xs).symm
  | cons y ys ih =>
      have hnew : y.name ∉ xs.map Element.name := by
        rw [List.map_append, List.map_cons] at h
        exact fun hmem => List.disjoint_of_nodup_append h hmem (List.mem_cons_self ..)
      rw [List.foldl_cons, Element.put_of_new hnew, ih, List.append_assoc]
      · rfl
      · rw [List.append_assoc]
        exact h

/-! ### Merging -/

mutual

/-- Nothing is merged where no name is repeated. -/
theorem Annotation.merge_of_distinct (a : Annotation) (h : a.Distinct) : a.merge = a := by
  obtain ⟨type, elements⟩ := a
  unfold Annotation.Distinct at h
  unfold Annotation.merge
  rw [Element.mergeAll_of_distinct elements h.2,
    Element.foldl_put_of_nodup [] elements h.1]
  rfl

theorem ElementValue.merge_of_distinct (v : ElementValue) (h : v.Distinct) : v.merge = v := by
  match v with
  | .literal .. | .string _ | .classInfo _ | .enumConstant .. => rfl
  | .nested content =>
    unfold ElementValue.Distinct at h
    rw [ElementValue.merge, Annotation.merge_of_distinct content h]
  | .array values =>
    unfold ElementValue.Distinct at h
    rw [ElementValue.merge, ElementValue.mergeAll_of_distinct values h]

theorem Element.mergeAll_of_distinct (xs : List Element) (h : Element.DistinctAll xs) :
    Element.mergeAll xs = xs := by
  match xs with
  | [] => rfl
  | ⟨name, value⟩ :: rest =>
    unfold Element.DistinctAll at h
    rw [Element.mergeAll, ElementValue.merge_of_distinct value h.1,
      Element.mergeAll_of_distinct rest h.2]

theorem ElementValue.mergeAll_of_distinct (vs : List ElementValue)
    (h : ElementValue.DistinctAll vs) : ElementValue.mergeAll vs = vs := by
  match vs with
  | [] => rfl
  | value :: rest =>
    unfold ElementValue.DistinctAll at h
    rw [ElementValue.mergeAll, ElementValue.merge_of_distinct value h.1,
      ElementValue.mergeAll_of_distinct rest h.2]

end

end ClassFormat
