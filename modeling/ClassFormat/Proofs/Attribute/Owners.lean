/-
What the owners of attributes read.

Each kind of payload has its reader, and the table of an owner is its list of
interpreted names with the readers put in.  A list of attributes then shows what is
stored and whether a mark of deprecation was among them.
-/
import ClassFormat.Proofs.Attribute.Reading
import ClassFormat.Proofs.Signature.Accepted

namespace ClassFormat

open Decoder

variable {pool : ConstantPool}

/-! ### Payloads -/

/-- The decoder takes the payloads of one kind. -/
abbrev PayloadKind.Takes (pool : ConstantPool) (form : SignatureForm) (kind : PayloadKind)
    (p : Decoder Payload) : Prop :=
  p.Reads (written (fun x : PayloadLayout => x.kind? = some kind ∧ x.WellFormed pool form.Accepts)
    PayloadLayout.encode (PayloadLayout.view pool Annotation.merge))

namespace Payload

variable {form : SignatureForm}

theorem reads_constantValue (hp : pool.Linked) :
    PayloadKind.constantValue.Takes pool form (decodeConstantValue pool) := by
  refine ((reads_u2 "constantvalue_index").andThen fun index _ =>
    Reads.require (ConstantPool.exists_literal_index hp index)
      (reads_pure (Payload.constantValue index))).rebuild .constantValue ?_ ?_
  · intro index h
    obtain ⟨-, hindex, -⟩ := h
    exact ⟨⟨rfl, hindex⟩, rfl, rfl⟩
  · intro x h
    obtain ⟨index, rfl⟩ := PayloadLayout.exists_of_kind h.1
    exact ⟨index, ⟨trivial, h.2, trivial⟩, rfl⟩

theorem reads_signature {α : Type} {read : Text → Except Fault α}
    (hread : ∀ t, (∃ a, read t = .ok a) ↔ form.Accepts t) :
    PayloadKind.signature.Takes pool form (decodeSignature pool read) := by
  refine ((reads_u2 "signature_index").seq fun index _ =>
    Reads.resolve (ConstantPool.settles_utf8 index) fun _ =>
      Reads.require (hread (pool.textAt index)) (reads_pure (Payload.signature index))).rebuild
        (fun z => .signature z.1) ?_ ?_
  · intro z h
    obtain ⟨-, hindex, htext, -⟩ := h
    exact ⟨⟨rfl, hindex, htext⟩, (List.append_nil _).symm, rfl⟩
  · intro x h
    obtain ⟨index, rfl⟩ := PayloadLayout.exists_of_kind h.1
    exact ⟨(index, ()), ⟨trivial, h.2.1, h.2.2, trivial⟩, rfl⟩

theorem reads_sourceFile :
    PayloadKind.sourceFile.Takes pool form (decodeSourceFile pool) := by
  refine ((reads_u2 "sourcefile_index").andThen fun index _ =>
    Reads.resolve (ConstantPool.settles_utf8 index) fun _ =>
      reads_pure (Payload.sourceFile index)).rebuild .sourceFile ?_ ?_
  · intro index h
    obtain ⟨-, hindex, -⟩ := h
    exact ⟨⟨rfl, hindex⟩, rfl, rfl⟩
  · intro x h
    obtain ⟨index, rfl⟩ := PayloadLayout.exists_of_kind h.1
    exact ⟨index, ⟨trivial, h.2, trivial⟩, rfl⟩

theorem reads_exceptions (hp : pool.Linked) :
    PayloadKind.exceptions.Takes pool form (decodeExceptions pool) := by
  have hclass (index : UInt16) : (do
      let _ ← ofResult (pool.className index.toNat)
      pure PUnit.unit : Decoder PUnit).Reads
        (written (fun _ : Unit => pool.RefersTo index [.classRef]) (fun _ => []) fun _ => ()) := by
    refine (Reads.require (ConstantPool.exists_className_index hp index)
      (reads_pure PUnit.unit)).reshape ?_ ?_
    · intro _ h
      obtain ⟨hindex, -⟩ := h
      exact ⟨(), hindex, rfl, rfl⟩
    · intro _ hindex
      exact ⟨(), ⟨hindex, trivial⟩, rfl, rfl⟩
  refine (Reads.seqCounted (reads_u2 "exception_index") "number_of_exceptions" fun indices _ =>
    (reads_forM hclass (indices.map id)).map fun _ =>
      Payload.exceptions (indices.map id)).rebuild (fun z => .exceptions z.1) ?_ ?_
  · intro z h
    obtain ⟨indices, ⟨⟩⟩ := z
    obtain ⟨hcount, hall⟩ := h
    have hall' : ∀ i ∈ indices.map id, pool.RefersTo i [.classRef] := hall
    rw [List.map_id] at hall'
    refine ⟨⟨rfl, hcount.1, hall'⟩, (List.append_nil _).symm, ?_⟩
    exact congrArg Payload.exceptions (List.map_id indices).symm
  · intro x h
    obtain ⟨hkind, hok⟩ := h
    obtain ⟨indices, rfl⟩ := PayloadLayout.exists_of_kind hkind
    have hall : ∀ i ∈ indices.map id, pool.RefersTo i [.classRef] := by
      rw [List.map_id]
      exact hok.2
    exact ⟨(indices, ()), ⟨⟨hok.1, fun _ _ => trivial⟩, hall⟩, rfl⟩

theorem reads_decodeInnerClass (hp : pool.Linked) :
    (decodeInnerClass pool).Reads
      (written (InnerClassLayout.WellFormed pool) InnerClassLayout.encode
        (InnerClassLayout.view pool)) := by
  refine ((reads_u2 "u2").seq fun inner _ => (reads_u2 "u2").seq fun outer _ =>
    (reads_u2 "u2").seq fun name _ => (reads_u2 "u2").seq fun flags _ =>
    Reads.resolve (ConstantPool.settles_className hp inner) fun _ =>
    (reads_optionalClass hp outer).seq fun _ _ => (reads_optionalText name).map fun shown =>
      InnerClass.mk (pool.classNameAt inner)
        (ConstantPool.optionalAt pool.classNameAt outer) shown flags).rebuild
          (fun z => ⟨z.1, z.2.1, z.2.2.1, z.2.2.2.1⟩) ?_ ?_
  · intro z h
    obtain ⟨inner, outer, name, flags, ⟨⟩, ⟨⟩⟩ := z
    obtain ⟨-, -, -, -, hinner, houter, hname⟩ := h
    refine ⟨⟨hinner, houter, hname⟩, ?_, rfl⟩
    show _ = Encoder.u2 inner ++ (Encoder.u2 outer ++ (Encoder.u2 name ++
      (Encoder.u2 flags ++ [])))
    rw [List.append_nil]
    rfl
  · intro z hok
    exact ⟨(z.inner, z.outer, z.name, z.flags, (), ()),
      ⟨trivial, trivial, trivial, trivial, hok.inner, hok.outer, hok.name⟩, rfl⟩

theorem reads_innerClasses (hp : pool.Linked) :
    PayloadKind.innerClasses.Takes pool form (decodeInnerClasses pool) := by
  refine (reads_counted_map (reads_decodeInnerClass hp) "number_of_classes"
    Payload.innerClasses).rebuild .innerClasses (fun _ hok => ⟨⟨rfl, hok⟩, rfl, rfl⟩) ?_
  intro x h
  obtain ⟨classes, rfl⟩ := PayloadLayout.exists_of_kind h.1
  exact ⟨classes, h.2, rfl⟩

theorem reads_decodeMethodParameter :
    (decodeMethodParameter pool).Reads
      (written (MethodParameterLayout.WellFormed pool) MethodParameterLayout.encode
        (MethodParameterLayout.view pool)) := by
  refine ((reads_u2 "u2").seq fun name _ => (reads_u2 "u2").seq fun flags _ =>
    (reads_optionalText name).map fun shown => MethodParameter.mk shown flags).rebuild
      (fun z => ⟨z.1, z.2.1⟩) ?_ ?_
  · intro z h
    obtain ⟨-, -, hname⟩ := h
    exact ⟨hname, congrArg (Encoder.u2 z.1 ++ ·) (List.append_nil (Encoder.u2 z.2.1)).symm, rfl⟩
  · intro z hname
    exact ⟨(z.name, z.flags, ()), ⟨trivial, trivial, hname⟩, rfl⟩

theorem reads_methodParameters :
    PayloadKind.methodParameters.Takes pool form (decodeMethodParameters pool) := by
  refine ((reads_u1 "parameters_count").seq fun n _ =>
    (reads_times reads_decodeMethodParameter n.toNat).map Payload.methodParameters).rebuild
      (fun z => .methodParameters z.2) ?_ ?_
  · intro z h
    obtain ⟨n, parameters⟩ := z
    obtain ⟨-, hlen, hall⟩ := h
    have hlen' : parameters.length = n.toNat := hlen
    refine ⟨⟨rfl, ?_, hall⟩, ?_, rfl⟩
    · rw [hlen']
      exact n.toNat_lt
    · show Encoder.u1 (.ofNat parameters.length) ++ _ = Encoder.u1 n ++ _
      rw [hlen', UInt8.ofNat_toNat]
  · intro x h
    obtain ⟨hkind, hok⟩ := h
    obtain ⟨parameters, rfl⟩ := PayloadLayout.exists_of_kind hkind
    exact ⟨(.ofNat parameters.length, parameters),
      ⟨trivial, (UInt8.toNat_ofNat_of_lt' hok.1).symm, hok.2⟩, rfl⟩

theorem reads_code (hp : pool.Linked) :
    PayloadKind.code.Takes pool form (Payload.code <$> Code.decode pool) := by
  refine ((Code.reads_decode hp).functorMap Payload.code).rebuild .code
    (fun _ hok => ⟨⟨rfl, hok⟩, rfl, rfl⟩) ?_
  intro x h
  obtain ⟨body, rfl⟩ := PayloadLayout.exists_of_kind h.1
  exact ⟨body, h.2, rfl⟩

theorem reads_annotations :
    PayloadKind.annotations.Takes pool form (decodeAnnotations pool) := by
  have hview (content : List AnnotationLayout) :
      Payload.annotations ((content.map (AnnotationLayout.view pool)).map Annotation.merge) =
        .annotations (content.map fun a => (a.view pool).merge) := by
    rw [List.map_map]
    rfl
  have hitem := Annotation.reads_decode pool
  refine (reads_counted_map hitem "num_annotations" fun found =>
    Payload.annotations (found.map Annotation.merge)).rebuild .annotations
      (fun content hok => ⟨⟨rfl, hok⟩, rfl, (hview content).symm⟩) ?_
  intro x h
  obtain ⟨content, rfl⟩ := PayloadLayout.exists_of_kind h.1
  exact ⟨content, h.2, rfl⟩

theorem reads_other (n : Nat) :
    (skip n "bytes" >>= fun _ => pure Payload.uninterpreted).Reads
      (written (fun x : PayloadLayout =>
          (x.kind? = none ∧ x.WellFormed pool form.Accepts) ∧ x.encode.length = n)
        PayloadLayout.encode (PayloadLayout.view pool Annotation.merge)) := by
  refine ((reads_skip n "bytes").map fun _ => Payload.uninterpreted).rebuild .other
    (fun _ hlen => ⟨⟨⟨rfl, trivial⟩, hlen⟩, rfl, rfl⟩) ?_
  intro x h
  obtain ⟨⟨hkind, -⟩, hlen⟩ := h
  obtain ⟨bytes, rfl⟩ := PayloadLayout.exists_of_kind hkind
  exact ⟨bytes, hlen, rfl⟩

end Payload

/-! ### Owners -/

/-- The reader that an owner has for a kind of payload. -/
def PayloadKind.reader (pool : ConstantPool) (owner : OwnerKind) : PayloadKind → Decoder Payload
  | constantValue => Payload.decodeConstantValue pool
  | signature =>
    match owner with
    | .ofClass => Payload.decodeSignature pool readClassSignature
    | .ofField => Payload.decodeSignature pool readFieldSignature
    | .ofMethod => Payload.decodeSignature pool readMethodSignature
  | sourceFile => Payload.decodeSourceFile pool
  | exceptions => Payload.decodeExceptions pool
  | innerClasses => Payload.decodeInnerClasses pool
  | methodParameters => Payload.decodeMethodParameters pool
  | code => Payload.code <$> Code.decode pool
  | annotations => Payload.decodeAnnotations pool

theorem PayloadKind.reads_reader (hp : pool.Linked) (owner : OwnerKind) (kind : PayloadKind) :
    kind.Takes pool owner.signatureForm (kind.reader pool owner) := by
  cases kind with
  | constantValue => exact Payload.reads_constantValue hp
  | signature =>
      cases owner with
      | ofClass => exact Payload.reads_signature fun _ => Iff.rfl
      | ofField => exact Payload.reads_signature fun _ => Iff.rfl
      | ofMethod => exact Payload.reads_signature fun _ => Iff.rfl
  | sourceFile => exact Payload.reads_sourceFile
  | exceptions => exact Payload.reads_exceptions hp
  | innerClasses => exact Payload.reads_innerClasses hp
  | methodParameters => exact Payload.reads_methodParameters
  | code => exact Payload.reads_code hp
  | annotations => exact Payload.reads_annotations

namespace OwnerKind

theorem table_eq (pool : ConstantPool) (owner : OwnerKind) :
    owner.table pool = owner.interpreted.map fun p => (p.1, p.2.reader pool owner) := by
  cases owner <;> rfl

/-- No owner interprets the payload of a mark of deprecation. -/
theorem lookup_markerName (owner : OwnerKind) : owner.interpreted.lookup markerName = none := by
  cases owner <;> decide

theorem reads_decodeAttribute (hp : pool.Linked) (owner : OwnerKind) (name : Text) (n : Nat) :
    (owner.decodeAttribute pool name n).Reads
      (written (fun x : PayloadLayout => (x.kind? = owner.interpreted.lookup name ∧
          x.WellFormed pool owner.signatureForm.Accepts) ∧ x.encode.length = n)
        PayloadLayout.encode
        fun x => ⟨name, x.encode.length, x.view pool Annotation.merge⟩) := by
  unfold decodeAttribute
  rw [table_eq]
  exact Attribute.reads_decodeBy owner.interpreted (fun kind => kind.reader pool owner)
    (fun kind => kind.reads_reader hp owner) Payload.reads_other name n

/-- A mark of deprecation is read as no attribute, and only if it is empty. -/
theorem reads_decodeMarked (hp : pool.Linked) (owner : OwnerKind) (name : Text) (n : Nat) :
    (owner.decodeMarked pool name n).Reads
      (written (fun x => PayloadLayout.Fits pool SignatureForm.Accepts owner name x ∧
          x.encode.length = n)
        PayloadLayout.encode
        fun x => if name = markerName then none
          else some ⟨name, x.encode.length, x.view pool Annotation.merge⟩) := by
  unfold decodeMarked
  by_cases hname : name = markerName
  · rw [if_pos (show name = ("Deprecated" : Text) from hname)]
    by_cases hn : n = 0
    · rw [if_pos hn]
      refine (reads_pure none).reshape ?_ ?_
      · intro _ _
        refine ⟨.other [], ⟨⟨?_, trivial, fun _ => rfl⟩, hn.symm⟩, rfl, if_pos hname⟩
        rw [hname, lookup_markerName]
        rfl
      · intro x h
        obtain ⟨hfits, -⟩ := h
        exact ⟨(), trivial, (List.length_eq_zero_iff.mp (hfits.marker hname)).symm,
          (if_pos hname).symm⟩
    · rw [if_neg hn]
      refine reads_never (failHere_ne_ok _) ?_
      intro x h
      obtain ⟨hfits, hlen⟩ := h
      exact hn (hlen.symm.trans (hfits.marker hname))
  · rw [if_neg (show name ≠ ("Deprecated" : Text) from hname)]
    refine ((owner.reads_decodeAttribute hp name n).functorMap some).rebuild id ?_ ?_
    · intro x h
      obtain ⟨⟨hkind, hok⟩, hlen⟩ := h
      exact ⟨⟨⟨hkind, hok, fun h => absurd h hname⟩, hlen⟩, rfl, if_neg hname⟩
    · intro x h
      obtain ⟨hfits, hlen⟩ := h
      exact ⟨x, ⟨⟨hfits.kind, hfits.content⟩, hlen⟩, rfl⟩

end OwnerKind

namespace AttributeSet

theorem ofMarked_map {X : Type} (marker : X → Prop) [DecidablePred marker]
    (view : X → Attribute Payload) (xs : List X) :
    ofMarked (xs.map fun x => if marker x then none else some (view x)) =
      ⟨(xs.filter fun x => ¬ marker x).map view, xs.any fun x => marker x⟩ := by
  have hstored : (xs.map fun x => if marker x then none else some (view x)).filterMap id =
      (xs.filter fun x => ¬ marker x).map view := by
    rw [List.filterMap_map, ← List.filterMap_eq_map, List.filterMap_filter]
    congr 1
    funext x
    by_cases hx : marker x
    · simp [hx]
    · simp [hx]
  have hdeprecated : (xs.map fun x => if marker x then none else some (view x)).any
      Option.isNone = xs.any fun x => marker x := by
    rw [List.any_map]
    congr 1
    funext x
    by_cases hx : marker x
    · simp [hx]
    · simp [hx]
  unfold ofMarked
  rw [hstored, hdeprecated]

/-- **An owner reads the list of its attributes.** -/
theorem reads_decode (hp : pool.Linked) (owner : OwnerKind) :
    (AttributeSet.decode pool owner).Reads
      (written (AttributesLayout.WellFormed pool SignatureForm.Accepts owner)
        AttributesLayout.encode (AttributesLayout.view pool Annotation.merge)) := by
  have hview (xs : AttributesLayout) :
      ofMarked (xs.map fun x => if x.name pool = markerName then none
        else some ⟨x.name pool, x.payload.encode.length, x.payload.view pool Annotation.merge⟩) =
          xs.view pool Annotation.merge :=
    ofMarked_map (fun x => x.name pool = markerName) _ xs
  refine ((Attribute.reads_decodeList (owner.reads_decodeMarked hp)).map ofMarked).rebuild id ?_ ?_
  · intro xs h
    obtain ⟨hcount, hall⟩ := h
    exact ⟨⟨hcount, hall⟩, rfl, (hview xs).symm⟩
  · intro xs h
    exact ⟨xs, ⟨h.count, h.each⟩, rfl⟩

end AttributeSet

end ClassFormat
