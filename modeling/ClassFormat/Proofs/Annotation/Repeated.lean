/-
Annotations whose elements repeat a name.

`Annotation.MergesTo` says what becomes of an annotation, level by level: a name stands where it
stands first, its value comes from where it stands last, and all else is kept.  The relation does
not say how to get there.  Merging does, by putting one element after the other in place; it
leads to what the relation asks for, and the relation leaves no choice.

The induction over the elements is from the back.  The last element decides the value of its
name, whatever came before it, and the place only if the name is new.
-/
import ClassFormat.Proofs.Annotation.Merging
import Mathlib.Data.List.Induction

namespace ClassFormat

/-- The element is among the others, and none of them has its name later on. -/
def Element.IsLast (e : Element) (es : List Element) : Prop :=
  ∃ before after, es = before ++ e :: after ∧ e.name ∉ after.map Element.name

mutual

/--
The second annotation is the first one with each name in its first place and with its last value,
at every level.
-/
inductive Annotation.MergesTo : Annotation → Annotation → Prop where
  | intro {type : Text} {es fs : List Element}
      (hnames : fs.map Element.name = (es.map Element.name).eraseDups)
      (hvalues : ∀ e f : Element, e.IsLast es → f ∈ fs → f.name = e.name →
        e.value.MergesTo f.value) :
      Annotation.MergesTo ⟨type, es⟩ ⟨type, fs⟩

/-- The second value is the first one with all annotations inside it merged. -/
inductive ElementValue.MergesTo : ElementValue → ElementValue → Prop where
  | literal (type : Primitive) (value : Literal) :
      ElementValue.MergesTo (.literal type value) (.literal type value)
  | string (text : Text) : ElementValue.MergesTo (.string text) (.string text)
  | classInfo (descriptor : Text) :
      ElementValue.MergesTo (.classInfo descriptor) (.classInfo descriptor)
  | enumConstant (type name : Text) :
      ElementValue.MergesTo (.enumConstant type name) (.enumConstant type name)
  | nested {a b : Annotation} (h : a.MergesTo b) : ElementValue.MergesTo (.nested a) (.nested b)
  | array {vs ws : List ElementValue} (hlength : vs.length = ws.length)
      (hvalues : ∀ i (hv : i < vs.length) (hw : i < ws.length), vs[i].MergesTo ws[i]) :
      ElementValue.MergesTo (.array vs) (.array ws)

end

namespace Element

/-! ### Putting one element in place -/

theorem map_name_put (xs : List Element) (e : Element) :
    (put xs e).map name =
      if e.name ∈ xs.map name then xs.map name else xs.map name ++ [e.name] := by
  induction xs with
  | nil => rfl
  | cons x xs ih =>
      by_cases hx : x.name = e.name
      · simp [put, hx]
      · rw [put, if_neg hx, List.map_cons, ih, List.map_cons]
        by_cases hmem : e.name ∈ xs.map name
        · rw [if_pos hmem, if_pos (List.mem_cons_of_mem _ hmem)]
        · have hnew : e.name ∉ x.name :: xs.map name := by
            rw [List.mem_cons, not_or]
            exact ⟨fun h => hx h.symm, hmem⟩
          rw [if_neg hmem, if_neg hnew, List.cons_append]

theorem nodup_put {xs : List Element} (h : (xs.map name).Nodup) (e : Element) :
    ((put xs e).map name).Nodup := by
  rw [map_name_put]
  by_cases hmem : e.name ∈ xs.map name
  · rw [if_pos hmem]
    exact h
  · rw [if_neg hmem]
    refine List.nodup_append.mpr ⟨h, List.nodup_singleton _, ?_⟩
    intro n hn m hm hnm
    rw [hnm, List.mem_singleton.mp hm] at hn
    exact hmem hn

/-- What is left of the others has other names. -/
theorem mem_put {xs : List Element} (h : (xs.map name).Nodup) {e f : Element}
    (hf : f ∈ put xs e) : f = e ∨ f ∈ xs ∧ f.name ≠ e.name := by
  induction xs with
  | nil => exact .inl (List.mem_singleton.mp hf)
  | cons x xs ih =>
      obtain ⟨hx, hxs⟩ := List.nodup_cons.mp h
      by_cases hname : x.name = e.name
      · rw [put, if_pos hname, List.mem_cons] at hf
        refine hf.imp_right fun hf => ⟨List.mem_cons_of_mem _ hf, fun hfe => hx ?_⟩
        rw [hname, ← hfe]
        exact List.mem_map_of_mem hf
      · rw [put, if_neg hname, List.mem_cons] at hf
        rcases hf with rfl | hf
        · exact .inr ⟨List.mem_cons_self .., hname⟩
        · exact (ih hxs hf).imp_right fun hf => ⟨List.mem_cons_of_mem _ hf.1, hf.2⟩

/-! ### Last elements -/

theorem isLast_concat (es : List Element) (e : Element) : e.IsLast (es ++ [e]) :=
  ⟨es, [], rfl, List.not_mem_nil⟩

theorem IsLast.mem {es : List Element} {e : Element} (h : e.IsLast es) : e ∈ es := by
  obtain ⟨before, after, rfl, -⟩ := h
  exact List.mem_append_right _ (List.mem_cons_self ..)

theorem IsLast.concat {es : List Element} {f : Element} (h : f.IsLast es) {e : Element}
    (hne : f.name ≠ e.name) : f.IsLast (es ++ [e]) := by
  obtain ⟨before, after, rfl, hafter⟩ := h
  refine ⟨before, after ++ [e], by simp, ?_⟩
  rw [List.map_append, List.mem_append, not_or]
  exact ⟨hafter, fun hmem => hne (List.mem_singleton.mp hmem)⟩

theorem eq_of_no_later {e f : Element} {between after after' : List Element}
    (h : e :: after = between ++ f :: after') (hafter : e.name ∉ after.map name)
    (hname : e.name = f.name) : e = f := by
  cases between with
  | nil => exact (List.cons.inj h).1
  | cons x between =>
      rw [(List.cons.inj h).2, hname] at hafter
      exact absurd (List.mem_map_of_mem (List.mem_append_right _ (List.mem_cons_self ..))) hafter

/-- A name has one last element only. -/
theorem IsLast.eq_of_name_eq {es : List Element} {e f : Element} (he : e.IsLast es)
    (hf : f.IsLast es) (hname : e.name = f.name) : e = f := by
  obtain ⟨before, after, rfl, hafter⟩ := he
  obtain ⟨before', after', hes, hafter'⟩ := hf
  rcases List.append_eq_append_iff.mp hes with ⟨between, -, h⟩ | ⟨between, -, h⟩
  · exact eq_of_no_later h hafter hname
  · exact (eq_of_no_later h hafter' hname.symm).symm

/-- Elements that are changed without regard to their order stay last. -/
theorem IsLast.of_map {g : Element → Element} (hg : ∀ e, (g e).name = e.name) {es : List Element}
    {f : Element} (h : f.IsLast (es.map g)) : ∃ e : Element, e.IsLast es ∧ g e = f := by
  obtain ⟨before, after, hes, hafter⟩ := h
  obtain ⟨before, tail, rfl, -, htail⟩ := List.map_eq_append_iff.mp hes
  obtain ⟨e, after, rfl, rfl, rfl⟩ := List.map_eq_cons_iff.mp htail
  refine ⟨e, ⟨before, after, rfl, fun hmem => hafter ?_⟩, rfl⟩
  rw [hg, List.map_map]
  obtain ⟨x, hx, hname⟩ := List.mem_map.mp hmem
  exact List.mem_map.mpr ⟨x, hx, (hg x).trans hname⟩

/-! ### Putting all elements in place -/

theorem nodup_foldl_put (es : List Element) : ((es.foldl put []).map name).Nodup := by
  -- From the back, since the last element is the one that is put in place last.
  induction es using List.reverseRecOn with
  | nil => exact List.nodup_nil
  | append_singleton es e ih =>
      rw [List.foldl_append]
      exact nodup_put ih e

/-- Each name stands where it stood first. -/
theorem map_name_foldl_put (es : List Element) :
    (es.foldl put []).map name = (es.map name).eraseDups := by
  induction es using List.reverseRecOn with
  | nil => rfl
  | append_singleton es e ih =>
      rw [List.foldl_append, List.foldl_cons, List.foldl_nil, map_name_put, ih, List.map_append,
        List.eraseDups_append]
      simp only [List.mem_eraseDups]
      by_cases hmem : e.name ∈ es.map name
      · have hnone : ([e].map name).removeAll (es.map name) = [] := by
          simpa [List.removeAll] using hmem
        rw [if_pos hmem, hnone, List.eraseDups_nil, List.append_nil]
      · have hnew : ([e].map name).removeAll (es.map name) = [e.name] := by
          simpa [List.removeAll] using hmem
        rw [if_neg hmem, hnew]
        rfl

/-- Each element that is left was the last one of its name. -/
theorem isLast_of_mem_foldl_put (es : List Element) : ∀ f ∈ es.foldl put [], f.IsLast es := by
  induction es using List.reverseRecOn with
  | nil => exact List.forall_mem_nil _
  | append_singleton es e ih =>
      intro f hf
      rw [List.foldl_append] at hf
      rcases mem_put (nodup_foldl_put es) hf with rfl | ⟨hf, hne⟩
      · exact isLast_concat es f
      · exact (ih f hf).concat hne

end Element

/-- Elements of the same names in the same order are the same if their values are. -/
theorem Element.ext_of_names {fs gs : List Element}
    (hnames : fs.map Element.name = gs.map Element.name)
    (hvalues : ∀ f ∈ fs, ∀ g ∈ gs, f.name = g.name → f.value = g.value) : fs = gs := by
  induction fs generalizing gs with
  | nil => exact (List.map_eq_nil_iff.mp hnames.symm).symm
  | cons f fs ih =>
      obtain ⟨g, gs, rfl⟩ : ∃ g gs', gs = g :: gs' := by
        cases gs with
        | nil => cases hnames
        | cons g gs => exact ⟨g, gs, rfl⟩
      obtain ⟨hname, hrest⟩ := List.cons.inj hnames
      have hvalue := hvalues f (List.mem_cons_self ..) g (List.mem_cons_self ..) hname
      rw [ih hrest fun f hf g hg => hvalues f (List.mem_cons_of_mem _ hf) g
        (List.mem_cons_of_mem _ hg)]
      obtain ⟨n, v⟩ := f
      obtain ⟨m, w⟩ := g
      cases hname
      cases hvalue
      rfl

/-! ### Merging leads there -/

theorem Element.mergeAll_eq (es : List Element) :
    Element.mergeAll es = es.map fun e => ⟨e.name, e.value.merge⟩ := by
  induction es with
  | nil => rfl
  | cons e es ih =>
      obtain ⟨name, value⟩ := e
      rw [Element.mergeAll, ih, List.map_cons]

theorem ElementValue.mergeAll_eq (vs : List ElementValue) :
    ElementValue.mergeAll vs = vs.map ElementValue.merge := by
  induction vs with
  | nil => rfl
  | cons v vs ih => rw [ElementValue.mergeAll, ih, List.map_cons]

theorem Element.map_name_merged (es : List Element) :
    ((Element.mergeAll es).foldl Element.put []).map Element.name =
      (es.map Element.name).eraseDups := by
  rw [Element.map_name_foldl_put, Element.mergeAll_eq, List.map_map]
  rfl

/-- The elements that are left come from the last ones of their names. -/
theorem Element.exists_isLast_of_merged {es : List Element} {f : Element}
    (hf : f ∈ (Element.mergeAll es).foldl Element.put []) :
    ∃ e : Element, e.IsLast es ∧ e.name = f.name ∧ e.value.merge = f.value := by
  have hlast := Element.isLast_of_mem_foldl_put _ f hf
  rw [Element.mergeAll_eq] at hlast
  obtain ⟨e, he, rfl⟩ := Element.IsLast.of_map (fun _ => by rfl) hlast
  exact ⟨e, he, rfl, rfl⟩

mutual

theorem Annotation.mergesTo_merge (a : Annotation) : a.MergesTo a.merge := by
  obtain ⟨type, es⟩ := a
  have hall := Element.mergesTo_mergeAll es
  refine .intro (Element.map_name_merged es) fun e f he hf hname => ?_
  obtain ⟨e', he', hname', hvalue⟩ := Element.exists_isLast_of_merged hf
  rw [← hvalue, he'.eq_of_name_eq he (hname'.trans hname)]
  exact hall e he.mem

theorem ElementValue.mergesTo_merge (v : ElementValue) : v.MergesTo v.merge := by
  match v with
  | .literal type value => exact .literal type value
  | .string text => exact .string text
  | .classInfo descriptor => exact .classInfo descriptor
  | .enumConstant type name => exact .enumConstant type name
  | .nested content => exact .nested content.mergesTo_merge
  | .array values =>
    have hall := ElementValue.mergesTo_mergeAll values
    rw [ElementValue.merge, ElementValue.mergeAll_eq]
    refine .array (List.length_map _).symm fun i hv hw => ?_
    rw [List.getElem_map]
    exact hall _ (List.getElem_mem hv)

theorem Element.mergesTo_mergeAll (es : List Element) :
    ∀ e ∈ es, e.value.MergesTo e.value.merge := by
  match es with
  | [] => exact List.forall_mem_nil _
  | ⟨name, value⟩ :: rest =>
    have hvalue := value.mergesTo_merge
    exact List.forall_mem_cons.mpr ⟨hvalue, Element.mergesTo_mergeAll rest⟩

theorem ElementValue.mergesTo_mergeAll (vs : List ElementValue) :
    ∀ v ∈ vs, v.MergesTo v.merge := by
  match vs with
  | [] => exact List.forall_mem_nil _
  | value :: rest =>
    have hvalue := value.mergesTo_merge
    exact List.forall_mem_cons.mpr ⟨hvalue, ElementValue.mergesTo_mergeAll rest⟩

end

/-! ### Nothing else is asked for -/

mutual

theorem Annotation.eq_merge_of_mergesTo (a : Annotation) :
    ∀ b, a.MergesTo b → b = a.merge := by
  obtain ⟨type, es⟩ := a
  have hall := Element.eq_merge_of_mergesTo es
  intro b h
  cases h with
  | @intro _ _ fs hnames hvalues =>
    have hfs : fs = (Element.mergeAll es).foldl Element.put [] := by
      refine Element.ext_of_names (hnames.trans (Element.map_name_merged es).symm) ?_
      intro f hf g hg hname
      obtain ⟨e, he, hname', hvalue⟩ := Element.exists_isLast_of_merged hg
      rw [← hvalue]
      exact hall e he.mem _ (hvalues e f he hf (hname.trans hname'.symm))
    rw [hfs]
    rfl

theorem ElementValue.eq_merge_of_mergesTo (v : ElementValue) :
    ∀ w, v.MergesTo w → w = v.merge := by
  match v with
  | .literal .. | .string _ | .classInfo _ | .enumConstant .. =>
    intro w h
    cases h
    rfl
  | .nested content =>
    have hcontent := content.eq_merge_of_mergesTo
    intro w h
    cases h with
    | nested h => exact congrArg ElementValue.nested (hcontent _ h)
  | .array values =>
    have hall := ElementValue.eq_mergeAll_of_mergesTo values
    intro w h
    cases h with
    | @array _ ws hlength hvalues =>
      rw [ElementValue.merge, ElementValue.mergeAll_eq]
      refine congrArg ElementValue.array (List.ext_getElem (by simp [hlength]) fun i hw hv => ?_)
      rw [List.getElem_map]
      exact hall _ (List.getElem_mem _) _ (hvalues i (by omega) hw)

theorem Element.eq_merge_of_mergesTo (es : List Element) :
    ∀ e ∈ es, ∀ w, e.value.MergesTo w → w = e.value.merge := by
  match es with
  | [] => exact List.forall_mem_nil _
  | ⟨name, value⟩ :: rest =>
    have hvalue := value.eq_merge_of_mergesTo
    exact List.forall_mem_cons.mpr ⟨hvalue, Element.eq_merge_of_mergesTo rest⟩

theorem ElementValue.eq_mergeAll_of_mergesTo (vs : List ElementValue) :
    ∀ v ∈ vs, ∀ w, v.MergesTo w → w = v.merge := by
  match vs with
  | [] => exact List.forall_mem_nil _
  | value :: rest =>
    have hvalue := value.eq_merge_of_mergesTo
    exact List.forall_mem_cons.mpr ⟨hvalue, ElementValue.eq_mergeAll_of_mergesTo rest⟩

end

/-- Merging is what the relation asks for and nothing else. -/
theorem Annotation.mergesTo_iff {a b : Annotation} : a.MergesTo b ↔ b = a.merge :=
  ⟨a.eq_merge_of_mergesTo b, fun h => h ▸ a.mergesTo_merge⟩

end ClassFormat
