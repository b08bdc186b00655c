/-
Methods as they are displayed.

Three attributes speak of the parameters of a method, and they need not agree: the descriptor,
the generic signature and the table of names.  Whatever is taken of them has as many items as the
descriptor has parameters (`Method.type_ok`, `Method.length_of_parameterNames_ok`), so that types and
names pair up without a rest, and one part is shown for each parameter.

Whether a type is shown with an ellipsis is decided by how its name ends.  This comes to the same
as a look at the type, because the types of a method that was read are well formed.
-/
import ClassFormat.Proofs.ClassFile.Queries
import ClassFormat.Proofs.Signature.JavaName
import ClassFormat.Proofs.Signature.RoundTrip

namespace ClassFormat

variable {pool : ConstantPool} {qualified : Bool}

namespace Method

/-! ### Types -/

/-- How a type is shown, with an ellipsis for the outermost array or as it is. -/
structure ShowsType (qualified : Bool) (t : JavaType) (ellipsis : Prop) (shown : Text) : Prop where
  replaced : ellipsis →
    shown = JavaType.javaName qualified ⟨t.element, t.dimensions - 1⟩ ++ "..."
  kept : ¬ ellipsis → shown = t.javaName qualified
  /-- An ellipsis at the end is there for an array, and not by itself. -/
  visible : shown.endsIn "..." = true ↔ ellipsis

section Types

variable {t : JavaType} (h : t.WellFormed)
include h

theorem typeName_of_array (hdimensions : 0 < t.dimensions) :
    typeName qualified true t =
      JavaType.javaName qualified ⟨t.element, t.dimensions - 1⟩ ++ "..." := by
  have hends : (t.javaName qualified).endsIn "[]" = true :=
    (JavaType.endsIn_brackets_iff h).mpr hdimensions
  have hname : t.javaName qualified =
      JavaType.javaName qualified ⟨t.element, t.dimensions - 1⟩ ++ "[]" := by
    obtain ⟨e, n⟩ := t
    rw [← JavaType.javaName_succ, Nat.sub_add_cancel hdimensions]
  rw [typeName]
  simp only [hends, Bool.true_and, if_true]
  rw [hname]
  exact congrArg (· ++ _) (Text.append_dropEnd _ "[]")

theorem typeName_of_not {variadic : Bool} (hnot : ¬ (variadic = true ∧ 0 < t.dimensions)) :
    typeName qualified variadic t = t.javaName qualified := by
  refine if_neg fun hends => hnot ?_
  rw [Bool.and_eq_true, JavaType.endsIn_brackets_iff h] at hends
  exact hends

/-- The text is asked whether it ends in brackets, but the answer is about the type. -/
theorem showsType_typeName (variadic : Bool) :
    ShowsType qualified t (variadic = true ∧ 0 < t.dimensions)
      (typeName qualified variadic t) := by
  by_cases hshown : variadic = true ∧ 0 < t.dimensions
  · obtain ⟨rfl, hdimensions⟩ := hshown
    have hname : typeName qualified true t = _ := typeName_of_array h hdimensions
    refine ⟨fun _ => hname, fun hnot => absurd ⟨rfl, hdimensions⟩ hnot, ?_⟩
    rw [hname]
    exact iff_of_true (Text.endsIn_append _ _) ⟨rfl, hdimensions⟩
  · have hname : typeName qualified variadic t = _ := typeName_of_not h hshown
    refine ⟨fun h => absurd h hshown, fun _ => hname, ?_⟩
    rw [hname]
    exact iff_of_false (JavaType.closed_javaName h).not_endsIn hshown

end Types

theorem getElem_typeNames (variadic : Bool) (types : List JavaType) {i : Nat}
    (hi : i < types.length) (h : i < (typeNames qualified variadic types).length) :
    (typeNames qualified variadic types)[i] =
      typeName qualified (variadic && i + 1 == types.length) types[i] := by
  simp only [typeNames, List.getElem_mapIdx]

/-! ### What a method says of its parameters -/

variable {m : Method}

/-- The types are those of the descriptor, or those of the signature if these are as many. -/
theorem type_ok (h : m.toMember.Resolved pool .ofMethod .methodDescriptor) :
    ∃ s erased type, m.descriptor pool = .ok s ∧ readMethodDescriptor s = .ok erased ∧
      m.type pool = .ok type ∧ type.parameters.length = erased.parameters.length ∧
      (type = erased ∨
        ∃ g, m.signature pool = .ok (some g) ∧ readMethodSignature g = .ok type) := by
  obtain ⟨s, hs, erased, herased⟩ := h.descriptor_ok
  obtain ⟨type, htype⟩ := type_succeeds h
  refine ⟨s, erased, type, hs, herased, htype, ?_⟩
  obtain ⟨s', hs', htype⟩ := result_bind_ok.mp htype
  cases hs.symm.trans hs'
  obtain ⟨erased', herased', htype⟩ := result_bind_ok.mp htype
  cases herased.symm.trans herased'
  obtain ⟨signature, hsignature, htype⟩ := result_bind_ok.mp htype
  cases signature with
  | none =>
      cases htype
      exact ⟨rfl, .inl rfl⟩
  | some g =>
      obtain ⟨generic, hgeneric, htype⟩ := result_bind_ok.mp htype
      by_cases hcount : generic.parameters.length = erased.parameters.length
      · rw [if_pos hcount] at htype
        cases htype
        exact ⟨hcount, .inr ⟨g, hsignature, hgeneric⟩⟩
      · rw [if_neg hcount] at htype
        cases htype
        exact ⟨rfl, .inl rfl⟩

/-- The types of the parameters are well formed, wherever they come from. -/
theorem wellFormed_of_type_ok {type : MethodType}
    (h : m.toMember.Resolved pool .ofMethod .methodDescriptor) (htype : m.type pool = .ok type) :
    ∀ t ∈ type.parameters, t.WellFormed := by
  obtain ⟨s, erased, type', -, herased, htype', -, hsource⟩ := type_ok h
  cases htype.symm.trans htype'
  rcases hsource with rfl | ⟨g, -, hg⟩
  · exact (readMethodDescriptor_ok_iff.mp herased).1.1.parameters
  · exact (readMethodSignature_ok_iff.mp hg).1.parameters

/-- There is a name, or the place of one, for each type. -/
theorem length_of_parameterNames_ok {type : MethodType} {names : List (Option Text)}
    (htype : m.type pool = .ok type) (hnames : m.parameterNames pool = .ok names) :
    names.length = type.parameters.length := by
  obtain ⟨type', htype', hnames⟩ := result_bind_ok.mp hnames
  cases htype.symm.trans htype'
  cases htable : m.attributes.first? Payload.methodParameters? with
  | none =>
      rw [htable] at hnames
      cases hnames
      exact List.length_replicate
  | some a =>
      rw [htable] at hnames
      by_cases hcount : a.payload.length = type.parameters.length
      · simp only [if_pos hcount] at hnames
        cases hnames
        rw [List.length_map, hcount]
      · simp only [if_neg hcount] at hnames
        cases hnames
        exact List.length_replicate

end Method

/-! ### What is displayed -/

namespace ClassFile

open Method

variable {c : ClassFile} {m : Method}

/-- Apart from the name in front, nothing is displayed but the types with the names. -/
theorem Resolved.displayMethod_ok (h : c.Resolved) (hm : m ∈ c.methods) {type : MethodType}
    {names : List (Option Text)} (htype : m.type c.pool = .ok type)
    (hnames : m.parameterNames c.pool = .ok names) :
    ∃ title, ∀ qualified, c.displayMethod m qualified = .ok (.concat [title, "(", .join ", "
      ((typeNames qualified (m.flags.has .accVarargs) type.parameters).zipWith
        parameterText names), ")"]) := by
  obtain ⟨name, hname⟩ := (h.methodAnswers m hm).name
  have hdisplay : ∀ title qualified, m.display c.pool title qualified =
      .ok (.concat [title, "(", .join ", " ((typeNames qualified (m.flags.has .accVarargs)
        type.parameters).zipWith parameterText names), ")"]) :=
    fun title qualified => result_bind_ok.mpr ⟨type, htype, result_bind_ok.mpr ⟨names, hnames, rfl⟩⟩
  by_cases hconstructor : name = constructorName
  · obtain ⟨title, htitle⟩ := h.simpleName_succeeds
    refine ⟨title, fun qualified => result_bind_ok.mpr ⟨name, hname, ?_⟩⟩
    rw [if_pos hconstructor]
    exact result_bind_ok.mpr ⟨title, htitle, hdisplay title qualified⟩
  · refine ⟨name, fun qualified => result_bind_ok.mpr ⟨name, hname, ?_⟩⟩
    rw [if_neg hconstructor]
    exact hdisplay name qualified

/--
**A method is displayed with one part for each parameter of its descriptor**, whatever its
attributes say.  The types come from the descriptor or, as one, from the signature, and there are as
many names.  A type is shown with an ellipsis exactly if it is the last one of a method that takes
any number of arguments, and an array; the ellipsis then stands for the outermost dimension.
-/
theorem displayMethod_exact {policy : ReadPolicy} {bytes : List UInt8}
    (h : ofBytes policy bytes = .ok c) (hm : m ∈ c.methods) :
    ∃ s erased type names title,
      m.descriptor c.pool = .ok s ∧ readMethodDescriptor s = .ok erased ∧
      m.type c.pool = .ok type ∧ type.parameters.length = erased.parameters.length ∧
      (type = erased ∨
        ∃ g, m.signature c.pool = .ok (some g) ∧ readMethodSignature g = .ok type) ∧
      m.parameterNames c.pool = .ok names ∧ names.length = erased.parameters.length ∧
      ∀ qualified, ∃ parts,
        c.displayMethod m qualified = .ok (.concat [title, "(", .join ", " parts, ")"]) ∧
        parts.length = erased.parameters.length ∧
        ∀ i (hp : i < parts.length) (ht : i < type.parameters.length) (hn : i < names.length),
          ∃ shown, parts[i] = parameterText shown names[i] ∧
            ShowsType qualified type.parameters[i]
              (m.flags.has .accVarargs = true ∧ i + 1 = erased.parameters.length ∧
                0 < type.parameters[i].dimensions) shown := by
  have hresolved := ofBytes_resolved h
  have hmember := hresolved.methods m hm
  obtain ⟨s, erased, type, hs, herased, htype, hcount, hsource⟩ := type_ok hmember
  obtain ⟨names, hnames⟩ := parameterNames_succeeds hmember
  have hlength := length_of_parameterNames_ok htype hnames
  have hwell := wellFormed_of_type_ok hmember htype
  obtain ⟨title, hdisplay⟩ := hresolved.displayMethod_ok hm htype hnames
  refine ⟨s, erased, type, names, title, hs, herased, htype, hcount, hsource, hnames,
    hlength.trans hcount, fun qualified => ⟨_, hdisplay qualified, ?_, ?_⟩⟩
  · rw [List.length_zipWith, typeNames, List.length_mapIdx, hlength, Nat.min_self, hcount]
  · intro i hp ht hn
    refine ⟨_, List.getElem_zipWith, ?_⟩
    have hlast : (m.flags.has .accVarargs && i + 1 == erased.parameters.length) = true ↔
        m.flags.has .accVarargs = true ∧ i + 1 = erased.parameters.length := by
      rw [Bool.and_eq_true, beq_iff_eq]
    rw [getElem_typeNames _ _ ht, hcount, ← and_assoc, ← hlast]
    exact showsType_typeName (hwell _ (List.getElem_mem ht)) _

/-- A class with a method whose signature and table of names go together with its descriptor. -/
def variadic : ClassLayout where
  minor := 0
  major := 52
  constants := [asciiConstant "A", .classRef 1, asciiConstant "m", asciiConstant "([I[[LA;)V",
    asciiConstant "Signature", asciiConstant "([I[[TT;)V", asciiConstant "MethodParameters",
    asciiConstant "x", asciiConstant "java/lang/Object", .classRef 9]
  accessFlags := 0x21
  thisClass := 2
  superclass := 10
  interfaces := []
  fields := []
  methods := [⟨0x81, 3, 4, [⟨5, .signature 6⟩, ⟨7, .methodParameters [⟨8, 0⟩, ⟨0, 0⟩]⟩]⟩]
  attributes := []

theorem displayMethod_exact_variadic :
    let c := variadic.view Annotation.merge
    ofBytes .standard variadic.encode = .ok c ∧
      ∃ m ∈ c.methods, c.displayMethod m false = .ok "m(int[] x, T[]...)" ∧
        ∃ s erased title parts, m.descriptor c.pool = .ok s ∧
          readMethodDescriptor s = .ok erased ∧
          c.displayMethod m false = .ok (.concat [title, "(", .join ", " parts, ")"]) ∧
          parts.length = erased.parameters.length := by
  intro c
  have hread : ofBytes .standard variadic.encode = .ok c :=
    ofBytes_ok_iff_layout.mpr
      ⟨variadic, [], by decide +kernel, (List.append_nil _).symm, .inl rfl, rfl⟩
  refine ⟨hread, c.methods[0], List.mem_singleton_self _, by decide +kernel, ?_⟩
  obtain ⟨s, erased, type, names, title, hs, herased, -, -, -, -, -, hdisplay⟩ :=
    displayMethod_exact hread (List.mem_singleton_self _)
  obtain ⟨parts, hparts, hlength, -⟩ := hdisplay false
  exact ⟨s, erased, title, parts, hs, herased, hparts, hlength⟩

end ClassFile

end ClassFormat
