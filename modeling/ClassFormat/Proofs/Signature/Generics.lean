/-
Descriptors among signatures.

The rules for descriptors and those for signatures are written apart, and so are the
readers.  What they read is the same notation all the same: a descriptor is a signature
that makes no use of generics, and it is read as the same tree.  The one exception is a
field of a primitive type, which has a descriptor but no signature.

Both readers are known by their well-formed trees already, so what is left to compare are
the conditions on the trees.
-/
import ClassFormat.Proofs.Signature.RoundTrip

namespace ClassFormat

/-- The notation of a type that is no reference type is a single letter. -/
theorem JavaType.print_of_isReference_eq_false {t : JavaType} (h : t.isReference = false) :
    ∃ p : Primitive, t.print = [.scalar p.letter] := by
  obtain ⟨e, n⟩ := t
  cases e with
  | primitive p =>
      obtain rfl : n = 0 := by simpa [isReference] using h
      exact ⟨p, rfl⟩
  | _ => simp [isReference] at h

namespace SignatureForm

/-- Apart from single letters, the trees of field descriptors are plain trees of signatures. -/
theorem wellFormed_fieldDescriptor_iff {t : JavaType}
    (h : ∀ p : Primitive, t.print ≠ [.scalar p.letter]) :
    WellFormed fieldDescriptor t ↔ WellFormed fieldSignature t ∧ t.IsPlain := by
  have hreference : t.isReference = true := by
    by_contra hnot
    obtain ⟨p, hp⟩ := JavaType.print_of_isReference_eq_false (Bool.not_eq_true _ ▸ hnot)
    exact h p hp
  show t.WellFormed ∧ t.IsPlain ↔ (t.isReference = true ∧ t.WellFormed) ∧ t.IsPlain
  rw [hreference, eq_self_iff_true, true_and]

/-- The trees of method descriptors are the plain trees of method signatures. -/
theorem wellFormed_methodDescriptor_iff (m : MethodType) :
    WellFormed methodDescriptor m ↔ WellFormed methodSignature m ∧ m.IsPlain :=
  Iff.rfl

/--
**A descriptor is a signature without generics.**  A text is read as a method descriptor
exactly if it is read as a method signature whose tree is plain, and the trees are the
same; and so it is with fields, unless the text is the letter of a primitive type.
-/
theorem descriptor_iff_plain_signature (s : Text) :
    (∀ m, readMethodDescriptor s = .ok m ↔ readMethodSignature s = .ok m ∧ m.IsPlain) ∧
    ((∀ p : Primitive, s ≠ [.scalar p.letter]) →
      ∀ t, readFieldDescriptor s = .ok t ↔ readFieldSignature s = .ok t ∧ t.IsPlain) := by
  refine ⟨?_, ?_⟩
  · intro m
    have hdescriptor : readMethodDescriptor s = .ok m ↔
        WellFormed methodDescriptor m ∧ m.print = s := @parse_ok_iff methodDescriptor s m
    have hsignature : readMethodSignature s = .ok m ↔
        WellFormed methodSignature m ∧ m.print = s := @parse_ok_iff methodSignature s m
    rw [hdescriptor, hsignature, wellFormed_methodDescriptor_iff, and_right_comm]
  · intro hletter t
    have hdescriptor : readFieldDescriptor s = .ok t ↔
        WellFormed fieldDescriptor t ∧ t.print = s := @parse_ok_iff fieldDescriptor s t
    have hsignature : readFieldSignature s = .ok t ↔
        WellFormed fieldSignature t ∧ t.print = s := @parse_ok_iff fieldSignature s t
    rw [hdescriptor, hsignature, and_right_comm]
    refine and_congr_left fun hprint => wellFormed_fieldDescriptor_iff ?_
    rw [hprint]
    exact hletter

theorem descriptor_iff_plain_signature_arrays :
    (∀ p : Primitive, ("[[Lm/Map;" : Text) ≠ [.scalar p.letter]) ∧
      readFieldDescriptor "[[Lm/Map;" = .ok ⟨.object ⟨["m"], ⟨"Map", []⟩, []⟩, 2⟩ ∧
      (∀ p : Primitive, ("[Lm/Map<*>.Entry;" : Text) ≠ [.scalar p.letter]) ∧
      readFieldDescriptor "[Lm/Map<*>.Entry;" ≠
        .ok ⟨.object ⟨["m"], ⟨"Map", [.any]⟩, [⟨"Entry", []⟩]⟩, 1⟩ := by
  have harray : ∀ p : Primitive, ("[[Lm/Map;" : Text) ≠ [.scalar p.letter] := by
    intro p
    cases p <;> decide
  have hnested : ∀ p : Primitive, ("[Lm/Map<*>.Entry;" : Text) ≠ [.scalar p.letter] := by
    intro p
    cases p <;> decide
  refine ⟨harray, ?_, hnested, ?_⟩
  · rw [(descriptor_iff_plain_signature _).2 harray]
    exact ⟨by decide +kernel, rfl, rfl⟩
  · rw [Ne, (descriptor_iff_plain_signature _).2 hnested]
    rintro ⟨-, hplain⟩
    exact absurd hplain.1 (by decide)

end SignatureForm

end ClassFormat
