/-
Texts that are put together, how they end, and how they are taken apart.

An ending can be taken off a text and put back.  Only the last one of joined texts decides how
all of it ends.  Texts without a separator in them can be told from what they are joined to, and
there is one way to cut a text at its last separator.
-/
import Mathlib.Data.List.TakeWhile
import ClassFormat.Text.Basic

namespace ClassFormat.Text

theorem join_cons (separator name : Text) (names : List Text) :
    join separator (name :: names) = name ++ names.flatMap (separator ++ ·) := by
  unfold join
  induction names generalizing name with
  | nil => simp
  | cons next names ih =>
      rw [List.intercalate_cons_cons, ih, List.flatMap_cons, List.append_assoc, List.append_assoc]

theorem dropEnd_append {t ending : Text} (h : t.endsIn ending = true) :
    t.dropEnd ending.length ++ ending = t := by
  obtain ⟨front, rfl⟩ := List.isSuffixOf_iff_suffix.mp h
  simp [dropEnd]

theorem append_dropEnd (t ending : Text) : (t ++ ending).dropEnd ending.length = t := by
  simp [dropEnd]

theorem endsIn_append (t ending : Text) : (t ++ ending).endsIn ending = true :=
  List.isSuffixOf_iff_suffix.mpr (List.suffix_append _ _)

/-- Joined texts end as the last of them does. -/
theorem endsIn_join {separator ending : Text} {texts : List Text}
    (h : (texts.getLastD []).endsIn ending = true) (hne : texts ≠ []) :
    (join separator texts).endsIn ending = true := by
  rw [endsIn, List.isSuffixOf_iff_suffix] at h ⊢
  induction texts with
  | nil => exact absurd rfl hne
  | cons t texts ih =>
      cases texts with
      | nil => simpa [join] using h
      | cons next texts =>
          rw [join, List.intercalate_cons_cons]
          exact (ih (by simpa using h) (List.cons_ne_nil _ _)).trans (List.suffix_append _ _)

/-! ### Taking texts apart -/

section Separator

variable {separator : CodePoint}

/-- No two lists of texts that are not empty and hold no separator are joined to the same text. -/
theorem join_injective {texts texts' : List Text} (h : ∀ t ∈ texts, t ≠ [] ∧ separator ∉ t)
    (h' : ∀ t ∈ texts', t ≠ [] ∧ separator ∉ t)
    (heq : join [separator] texts = join [separator] texts') : texts = texts' := by
  -- An empty list and the list of one empty text would be joined to the same.
  have hnil {ts : List Text} (hts : ∀ t ∈ ts, t ≠ [] ∧ separator ∉ t)
      (hjoin : join [separator] ts = []) : ts = [] := by
    cases ts with
    | nil => rfl
    | cons t ts =>
        rw [join_cons] at hjoin
        exact absurd (List.append_eq_nil_iff.mp hjoin).1 (hts t List.mem_cons_self).1
  have hsplit {ts : List Text} (hts : ∀ t ∈ ts, t ≠ [] ∧ separator ∉ t) (hne : ts ≠ []) :
      (join [separator] ts).splitOn separator = ts :=
    List.splitOn_intercalate separator (fun t ht => (hts t ht).2) hne
  by_cases hne : texts = []
  · subst hne
    exact (hnil h' heq.symm).symm
  · by_cases hne' : texts' = []
    · subst hne'
      exact hnil h heq
    · rw [← hsplit h hne, heq, hsplit h' hne']

/-- A separator after each text is one between them and one at the end. -/
theorem flatMap_append_separator {texts : List Text} (hne : texts ≠ []) :
    texts.flatMap (· ++ [separator]) = join [separator] texts ++ [separator] := by
  induction texts with
  | nil => exact absurd rfl hne
  | cons t texts ih =>
      cases texts with
      | nil => simp [join]
      | cons next texts =>
          rw [List.flatMap_cons, ih (List.cons_ne_nil _ _), join, join, List.intercalate_cons_cons]
          simp only [List.append_assoc]

theorem ne_of_mem_reverse {t : Text} (h : separator ∉ t) :
    ∀ p ∈ t.reverse, (p != separator) = true := by
  intro p hp
  rw [bne_iff_ne]
  rintro rfl
  exact h (List.mem_reverse.mp hp)

theorem splitLast_of_not_mem {t : Text} (h : separator ∉ t) :
    t.splitLast separator = ([], t) := by
  have hall := ne_of_mem_reverse h
  simp only [splitLast, List.dropWhile_eq_nil_iff.mpr hall, List.takeWhile_eq_self_iff.mpr hall]
  simp

theorem splitLast_append {after : Text} (h : separator ∉ after)
    (before : Text) : (before ++ separator :: after).splitLast separator = (before, after) := by
  have hall := ne_of_mem_reverse h
  have hreverse : (before ++ separator :: after).reverse =
      after.reverse ++ separator :: before.reverse := by simp
  simp only [splitLast, hreverse, List.takeWhile_append_of_pos hall,
    List.dropWhile_append_of_pos hall]
  simp

theorem exists_last {t : Text} (h : separator ∈ t) :
    ∃ before after, separator ∉ after ∧ t = before ++ separator :: after := by
  obtain ⟨after, before, ht, hafter⟩ := List.eq_append_cons_of_mem (List.mem_reverse.mpr h)
  refine ⟨before.reverse, after.reverse, fun hmem => hafter (List.mem_reverse.mp hmem), ?_⟩
  rw [← List.reverse_reverse t, ht]
  simp

end Separator

end ClassFormat.Text
