/-
Class files and what they show.

Both directions come from one fact about the body of a class file: it is read if and
only if it is the string of a well-formed layout.  Forwards, this gives back every
layout from its bytes.  Backwards, it says that each byte of an accepted file belongs to
a layout, so that counts and lengths are what they claim to be at every level.

Reading merges repeated names of annotation elements, and a layout without repeated
names shows the same whether or not that is done.
-/
import ClassFormat.ClassFile.Equality
import ClassFormat.ClassFile.Query
import ClassFormat.Proofs.Annotation.Merging
import ClassFormat.Proofs.ClassFile.Reading
import ClassFormat.Proofs.Signature.RoundTrip

namespace ClassFormat

open Decoder

variable {pool : ConstantPool}

/-! ### Larger languages -/

section Mono

variable {language language' : SignatureForm → Text → Prop}
  (hsub : ∀ form t, language form t → language' form t)
include hsub

theorem PayloadLayout.Fits.mono {owner : OwnerKind} {name : Text} {x : PayloadLayout}
    (h : PayloadLayout.Fits pool language owner name x) :
    PayloadLayout.Fits pool language' owner name x := by
  refine ⟨h.kind, ?_, h.marker⟩
  have hcontent := h.content
  cases x with
  | signature index => exact ⟨hcontent.1, hsub _ _ hcontent.2⟩
  | _ => exact hcontent

theorem AttributesLayout.WellFormed.mono {owner : OwnerKind} {xs : AttributesLayout}
    (h : AttributesLayout.WellFormed pool language owner xs) :
    AttributesLayout.WellFormed pool language' owner xs := by
  refine ⟨h.count, fun x hx => ?_⟩
  obtain ⟨hnamed, hfits, hpayload⟩ := h.each x hx
  exact ⟨hnamed, hfits, hpayload.mono hsub⟩

theorem MemberLayout.WellFormed.mono {owner : OwnerKind} {form : SignatureForm}
    {x : MemberLayout} (h : x.WellFormed pool language owner form) :
    x.WellFormed pool language' owner form :=
  ⟨h.name, h.descriptor, hsub _ _ h.described, h.attributes.mono hsub⟩

theorem ClassLayout.WellFormed.mono {policy : ReadPolicy} {x : ClassLayout}
    (h : x.WellFormed policy language) : x.WellFormed policy language' :=
  { h with
    fields := fun m hm => (h.fields m hm).mono hsub
    methods := fun m hm => (h.methods m hm).mono hsub
    attributes := h.attributes.mono hsub }

end Mono

/-! ### Settling annotations -/

section Settling

variable {settle settle' : Annotation → Annotation}

theorem PayloadLayout.view_congr {x : PayloadLayout}
    (h : ∀ a ∈ x.annotationLayouts, settle (a.view pool) = settle' (a.view pool)) :
    x.view pool settle = x.view pool settle' := by
  cases x with
  | annotations content => exact congrArg Payload.annotations (List.map_congr_left h)
  | _ => rfl

theorem AttributesLayout.view_congr {xs : AttributesLayout}
    (h : ∀ a ∈ xs.annotationLayouts, settle (a.view pool) = settle' (a.view pool)) :
    xs.view pool settle = xs.view pool settle' := by
  have hstored : ∀ x ∈ xs.filter (fun x => x.name pool ≠ markerName),
      AttributeLayout.view pool PayloadLayout.encode (PayloadLayout.view pool settle) x =
        AttributeLayout.view pool PayloadLayout.encode (PayloadLayout.view pool settle') x := by
    intro x hx
    refine congrArg (Attribute.mk _ _) (PayloadLayout.view_congr fun a ha => h a ?_)
    exact List.mem_flatMap.mpr ⟨x, List.mem_of_mem_filter hx, ha⟩
  exact congrArg (AttributeSet.mk · _) (List.map_congr_left hstored)

theorem MemberLayout.view_congr {x : MemberLayout}
    (h : ∀ a ∈ x.attributes.annotationLayouts, settle (a.view pool) = settle' (a.view pool)) :
    x.view pool settle = x.view pool settle' :=
  congrArg (Member.mk _ _ _) (AttributesLayout.view_congr h)

theorem ClassLayout.view_congr {x : ClassLayout}
    (h : ∀ a ∈ x.annotationLayouts, settle (a.view x.pool) = settle' (a.view x.pool)) :
    x.view settle = x.view settle' := by
  have hmember : ∀ m ∈ x.fields ++ x.methods,
      m.view x.pool settle = m.view x.pool settle' := by
    intro m hm
    refine MemberLayout.view_congr fun a ha => h a (List.mem_append_left _ ?_)
    exact List.mem_flatMap.mpr ⟨m, hm, ha⟩
  have hfields : x.fields.map (fun m => (⟨m.view x.pool settle⟩ : Field)) =
      x.fields.map fun m => ⟨m.view x.pool settle'⟩ :=
    List.map_congr_left fun m hm => congrArg Field.mk (hmember m (List.mem_append_left _ hm))
  have hmethods : x.methods.map (fun m => (⟨m.view x.pool settle⟩ : Method)) =
      x.methods.map fun m => ⟨m.view x.pool settle'⟩ :=
    List.map_congr_left fun m hm => congrArg Method.mk (hmember m (List.mem_append_right _ hm))
  have hattributes : x.attributes.view x.pool settle = x.attributes.view x.pool settle' :=
    AttributesLayout.view_congr fun a ha => h a (List.mem_append_right _ ha)
  unfold ClassLayout.view
  rw [hfields, hmethods, hattributes]

end Settling

/-! ### Whole files -/

namespace ClassFile

variable {policy : ReadPolicy}

/-- The end of the class is the end of the input, unless the policy allows for more. -/
theorem decode_ok_iff {c c' : Cursor} {found : ClassFile} :
    decode policy c = .ok found c' ↔ decodeBody policy c = .ok found c' ∧
      (c'.rest = [] ∨ policy.allowTrailing = true) := by
  have hend (k : Cursor) : (decide (k.remaining = 0) || policy.allowTrailing) = true ↔
      k.rest = [] ∨ policy.allowTrailing = true := by
    rw [Bool.or_eq_true, decide_eq_true_eq, Cursor.remaining, List.length_eq_zero_iff]
  unfold decode
  rw [bind_ok]
  refine ⟨?_, ?_⟩
  · intro h
    obtain ⟨a, c₁, hbody, hrest⟩ := h
    obtain ⟨hleft, hpure⟩ := (guarded_ok (failHere_ne_ok _)).mp hrest
    obtain ⟨rfl, rfl⟩ := pure_ok.mp hpure
    exact ⟨hbody, (hend c₁).mp hleft⟩
  · intro h
    obtain ⟨hbody, hleft⟩ := h
    exact ⟨found, c', hbody, (guarded_ok (failHere_ne_ok _)).mpr ⟨(hend c').mpr hleft, rfl⟩⟩

theorem ofBytes_ok_iff {bytes : List UInt8} {c : ClassFile} :
    ofBytes policy bytes = .ok c ↔ ∃ c', decodeBody policy (.start bytes) = .ok c c' ∧
      (c'.rest = [] ∨ policy.allowTrailing = true) := by
  simp only [← decode_ok_iff]
  unfold ofBytes
  split
  · rename_i found c' hdecode
    simp [hdecode]
  · rename_i hdecode
    simp [hdecode]

/-- A file is accepted if it is the string of a layout, with bytes after it if that is allowed. -/
theorem ofBytes_ok_iff_layout {bytes : List UInt8} {c : ClassFile} :
    ofBytes policy bytes = .ok c ↔ ∃ x t, ClassLayout.WellFormed policy SignatureForm.Accepts x ∧
      bytes = x.encode ++ t ∧ (t = [] ∨ policy.allowTrailing = true) ∧
      x.view Annotation.merge = c := by
  rw [ofBytes_ok_iff]
  refine ⟨?_, ?_⟩
  · intro h
    obtain ⟨c', hbody, hend⟩ := h
    obtain ⟨-, ⟨x, hok, rfl, rfl⟩, hover⟩ := reads_decodeBody.explains hbody
    exact ⟨x, c'.rest, hok, hover.rest, hend, rfl⟩
  · intro h
    obtain ⟨x, t, hok, hbytes, hend, rfl⟩ := h
    obtain ⟨c', hbody, hover⟩ :=
      reads_decodeBody.accepts (c := .start bytes) ⟨x, hok, rfl, rfl⟩ hbytes
    refine ⟨c', hbody, ?_⟩
    rw [hover.rest_eq hbytes]
    exact hend

/--
**Every class file is read back from its bytes.**  If no annotation repeats the name of
an element, the class is exactly what the layout shows, and what it looks up in its pool is
what the constants there say.
-/
theorem ofBytes_encode (x : ClassLayout) (h : x.WellFormed policy SignatureForm.Accepts)
    (hdistinct : ∀ a ∈ x.annotationLayouts, (a.view x.pool).Distinct) :
    ofBytes policy x.encode = .ok (x.view id) ∧ (x.view id).pool.AnswersBySlots := by
  refine ⟨?_, h.constants.linked.answersBySlots⟩
  have hview : x.view Annotation.merge = x.view id :=
    ClassLayout.view_congr fun a ha => Annotation.merge_of_distinct _ (hdistinct a ha)
  exact ofBytes_ok_iff_layout.mpr ⟨x, [], h, (List.append_nil _).symm, .inl rfl, hview⟩

/-- The bytes of a text that has only letters of ASCII in it. -/
def asciiConstant (s : String) : RawConstant :=
  .utf8 (s.toList.map fun c => .ofNat c.toNat)

/-- A class with attributes of every kind, some of them marks or not interpreted. -/
def everyAttribute : ClassLayout where
  minor := 3
  major := 65
  constants := [asciiConstant "A", .classRef 1, .classRef 4, asciiConstant "java/lang/Object",
    asciiConstant "Deprecated", asciiConstant "x", asciiConstant "J",
    asciiConstant "ConstantValue", .long (-5), asciiConstant "m", asciiConstant "(JI)V",
    asciiConstant "Code", asciiConstant "LineNumberTable", asciiConstant "Mystery",
    asciiConstant "RuntimeVisibleAnnotations", asciiConstant "LA;", asciiConstant "Signature",
    asciiConstant "InnerClasses", asciiConstant "Exceptions", asciiConstant "MethodParameters",
    asciiConstant "SourceFile"]
  accessFlags := 0x21
  thisClass := 2
  superclass := 3
  interfaces := [3]
  fields := [⟨0x19, 6, 7, [⟨5, .other []⟩, ⟨8, .constantValue 9⟩]⟩]
  methods := [⟨1, 11, 12,
    [⟨13, .code ⟨4, 3, [0x2A, 0xB1], [⟨0, 1, 1, 0⟩, ⟨0, 1, 1, 3⟩],
        [⟨14, .lineNumbers [⟨0, 7⟩]⟩, ⟨15, .other [1, 2, 3]⟩, ⟨5, .other [4]⟩]⟩⟩,
     ⟨20, .exceptions [3]⟩, ⟨5, .other []⟩, ⟨21, .methodParameters [⟨6, 0⟩, ⟨0, 0x1000⟩]⟩]⟩]
  attributes := [⟨22, .sourceFile 1⟩, ⟨18, .signature 17⟩, ⟨15, .other [0xFF]⟩, ⟨5, .other []⟩,
    ⟨19, .innerClasses [⟨2, 0, 1, 8⟩]⟩,
    ⟨16, .annotations [⟨17, [⟨6, .array [.string 1, .nested ⟨17, [⟨6, .literal .long 9⟩]⟩]⟩,
      ⟨7, .enumConstant 17 1⟩, ⟨11, .classInfo 17⟩]⟩]⟩]

/-- The class that `everyAttribute` shows. -/
def everyAttributeShown : ClassFile where
  pool := ⟨[none, some (.utf8 "A"), some (.classRef 1), some (.classRef 4),
    some (.utf8 "java/lang/Object"), some (.utf8 "Deprecated"), some (.utf8 "x"), some (.utf8 "J"),
    some (.utf8 "ConstantValue"), some (.long (-5)), none, some (.utf8 "m"), some (.utf8 "(JI)V"),
    some (.utf8 "Code"), some (.utf8 "LineNumberTable"), some (.utf8 "Mystery"),
    some (.utf8 "RuntimeVisibleAnnotations"), some (.utf8 "LA;"), some (.utf8 "Signature"),
    some (.utf8 "InnerClasses"), some (.utf8 "Exceptions"), some (.utf8 "MethodParameters"),
    some (.utf8 "SourceFile")]⟩
  accessFlags := 0x21
  thisClass := 2
  superclass := 3
  anomalies := []
  interfaces := [3]
  fields := [⟨⟨0x19, 6, 7, ⟨[⟨"ConstantValue", 2, .constantValue 9⟩], true⟩⟩⟩]
  methods := [⟨⟨1, 11, 12,
    ⟨[⟨"Code", 58, .code ⟨4, 3, [0x2A, 0xB1],
        [⟨0, 1, 1, none⟩, ⟨0, 1, 1, some "java/lang/Object"⟩],
        [⟨"LineNumberTable", 6, .lineNumbers [⟨0, 7⟩]⟩, ⟨"Mystery", 3, .uninterpreted⟩,
          ⟨"Deprecated", 1, .uninterpreted⟩]⟩⟩,
      ⟨"Exceptions", 4, .exceptions [3]⟩,
      ⟨"MethodParameters", 9, .methodParameters [⟨some "x", 0⟩, ⟨none, 0x1000⟩]⟩], true⟩⟩⟩]
  attributes :=
    ⟨[⟨"SourceFile", 2, .sourceFile 1⟩, ⟨"Signature", 2, .signature 17⟩,
      ⟨"Mystery", 1, .uninterpreted⟩,
      ⟨"InnerClasses", 10, .innerClasses [⟨"A", none, some "A", 8⟩]⟩,
      ⟨"RuntimeVisibleAnnotations", 36, .annotations [⟨"LA;",
        [⟨"x", .array [.string "A", .nested ⟨"LA;", [⟨"x", .literal .long (.long (-5))⟩]⟩]⟩,
          ⟨"J", .enumConstant "LA;" "A"⟩, ⟨"m", .classInfo "LA;"⟩]⟩]⟩], true⟩

theorem ofBytes_encode_everyAttribute :
    ofBytes .standard everyAttribute.encode = .ok everyAttributeShown ∧
      everyAttributeShown.pool.AnswersBySlots ∧
      ∀ f ∈ everyAttributeShown.fields,
        f.constantValue everyAttributeShown.pool = .ok (some (.long (-5))) := by
  obtain ⟨hread, hanswers⟩ :=
    ofBytes_encode everyAttribute (by decide +kernel : everyAttribute.WellFormed .standard _)
      (by decide +kernel)
  have hshown : everyAttribute.view id = everyAttributeShown := by decide +kernel
  rw [hshown] at hread hanswers
  exact ⟨hread, hanswers, by decide +kernel⟩

theorem ofBytes_everyAttribute :
    ofBytes .standard everyAttribute.encode = .ok (everyAttribute.view Annotation.merge) :=
  ofBytes_ok_iff_layout.mpr
    ⟨everyAttribute, [], by decide +kernel, (List.append_nil _).symm, .inl rfl, rfl⟩

/--
**Nothing but class files is accepted.**  An accepted input is the string of a layout
that meets all conditions of the format, its descriptors and signatures being texts of
the grammars; bytes follow only where the policy allows it; and the class is what the
layout shows, with repeated names of annotation elements merged.
-/
theorem ofBytes_sound {bytes : List UInt8} {c : ClassFile} (h : ofBytes policy bytes = .ok c) :
    ∃ x t, ClassLayout.WellFormed policy SignatureForm.Derivable x ∧ bytes = x.encode ++ t ∧
      (t = [] ∨ policy.allowTrailing = true) ∧ c = x.view Annotation.merge := by
  obtain ⟨x, t, hok, hbytes, hend, rfl⟩ := ofBytes_ok_iff_layout.mp h
  exact ⟨x, t, hok.mono fun _ _ => SignatureForm.Accepts.derivable, hbytes, hend, rfl⟩

/-- A deprecated class without a superclass, with an attribute of unknown name, and a byte. -/
theorem ofBytes_sound_trailing :
    let policy : ReadPolicy := ⟨50, 52, true⟩
    let bytes : List UInt8 :=
      [0xCA, 0xFE, 0xBA, 0xBE, 0, 0, 0, 52, 0, 4, 1, 0, 1, 0x41, 7, 0, 1, 1, 0, 10, 0x44, 0x65,
       0x70, 0x72, 0x65, 0x63, 0x61, 0x74, 0x65, 0x64, 0, 0x21, 0, 2, 0, 0, 0, 0, 0, 0, 0, 0, 0, 2,
       0, 1, 0, 0, 0, 3, 9, 8, 7, 0, 3, 0, 0, 0, 0, 0xFF]
    ∃ c x t, ofBytes policy bytes = .ok c ∧
      ClassLayout.WellFormed policy SignatureForm.Derivable x ∧ bytes = x.encode ++ t ∧
      (t = [] ∨ policy.allowTrailing = true) ∧ c = x.view Annotation.merge := by
  intro policy bytes
  obtain ⟨c, hc⟩ : ∃ c, ofBytes policy bytes = .ok c := by decide +kernel
  obtain ⟨x, t, h⟩ := ofBytes_sound hc
  exact ⟨c, x, t, hc, h⟩

end ClassFile

end ClassFormat
