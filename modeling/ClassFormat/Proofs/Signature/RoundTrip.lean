/-
Descriptors and signatures, read and written.

A text of some form is read as a tree exactly if the tree is a well-formed one of the
form and the text is what it prints.  Reading and printing are therefore inverse to each
other between the texts that can be derived and the well-formed trees; nothing else is
ever read, and no two texts are read as the same tree.
-/
import ClassFormat.Proofs.Signature.Accepted
import ClassFormat.Proofs.Signature.Readers
import ClassFormat.Proofs.Signature.Soundness
import ClassFormat.Signature.Equality

namespace ClassFormat

namespace SignatureForm

/-- A parser that undoes a printer reads whole texts exactly as they are printed. -/
theorem read_ok_iff {α : Type} {form : SignatureForm} {p : Parser α} {ok : α → Prop}
    {print : α → Text} {more : CodePoint → Prop} (h : p.Inverts ok print more) {t : Text} {a : α} :
    form.read p t = .ok a ↔ ok a ∧ print a = t := by
  constructor
  · intro hread
    unfold SignatureForm.read Parser.readAll at hread
    cases hp : p t with
    | none => simp [hp] at hread
    | some r =>
        obtain ⟨b, rest⟩ := r
        cases rest with
        | cons c rest => simp [hp] at hread
        | nil =>
            obtain rfl : b = a := by simpa [hp] using hread
            obtain ⟨hok, ht⟩ := h.explains hp
            rw [List.append_nil] at ht
            exact ⟨hok, ht.symm⟩
  · rintro ⟨hok, rfl⟩
    have hp := h.accepts _ hok (.nil : Text.Ends more [])
    rw [List.append_nil] at hp
    unfold SignatureForm.read Parser.readAll
    rw [hp]

/-- A text is read as a tree exactly if the tree is well formed and prints to the text. -/
theorem parse_ok_iff {form : SignatureForm} {t : Text} {tree : form.Tree} :
    form.parse t = .ok tree ↔ form.WellFormed tree ∧ form.print tree = t := by
  cases form with
  | fieldDescriptor => exact read_ok_iff Descriptor.javaType_inverts
  | methodDescriptor => exact read_ok_iff Descriptor.methodType_inverts
  | classSignature => exact read_ok_iff Signature.classSignature_inverts
  | methodSignature => exact read_ok_iff Signature.methodType_inverts
  | fieldSignature => exact read_ok_iff Signature.referenceType_inverts

theorem read_error {α : Type} {form : SignatureForm} {p : Parser α} {t : Text}
    (h : ∀ a, form.read p t ≠ .ok a) :
    form.read p t = .error (.unplaced (.malformed form t)) := by
  unfold SignatureForm.read at h ⊢
  cases hp : p.readAll t with
  | none => rfl
  | some a => exact absurd (by rw [hp]) (h a)

/-- There is one way only in which a text is refused. -/
theorem parse_error {form : SignatureForm} {t : Text} (h : ∀ tree, form.parse t ≠ .ok tree) :
    form.parse t = .error (.unplaced (.malformed form t)) := by
  cases form <;> exact read_error h

theorem accepts_iff {form : SignatureForm} {t : Text} :
    form.Accepts t ↔ ∃ tree, form.parse t = .ok tree := by
  cases form <;> exact Iff.rfl

/-- The texts that are accepted are the notations of well-formed trees. -/
theorem accepts_iff_print {form : SignatureForm} {t : Text} :
    form.Accepts t ↔ ∃ tree, form.WellFormed tree ∧ form.print tree = t :=
  accepts_iff.trans (exists_congr fun _ => parse_ok_iff)

/-- **Every text that is accepted can be derived.** -/
theorem Accepts.derivable {form : SignatureForm} {t : Text} (h : form.Accepts t) :
    form.Derivable t := by
  obtain ⟨tree, hwell, rfl⟩ := accepts_iff_print.mp h
  exact hwell.derivable

/--
A method type with names that begin as types do.  In its notation a type parameter
follows an array type and begins with the letters of two more types.
-/
def lookalikes : MethodType where
  typeParameters := [
    ⟨"I", some ⟨.primitive .int, 1⟩, []⟩,
    ⟨"LA", none, [.ofElement (.object ⟨[], ⟨"B",
      [.bounded .covariant (.ofElement (.variable "L")), .any]⟩, [⟨"C", []⟩]⟩)]⟩]
  parameters := [.ofElement (.variable "LA"), .ofElement (.primitive .double)]
  result := .value ⟨.object ⟨["java", "lang"], ⟨"V", []⟩, []⟩, 2⟩
  throws := [.ofElement (.variable "I")]

/--
**Every well-formed tree is read back from its notation**, which is a text that can be
derived from the rule of its form.
-/
theorem parse_print (form : SignatureForm) (tree : form.Tree) (h : form.WellFormed tree) :
    form.Derivable (form.print tree) ∧ form.parse (form.print tree) = .ok tree :=
  ⟨h.derivable, parse_ok_iff.mpr ⟨h, rfl⟩⟩

theorem parse_print_lookalikes :
    WellFormed methodSignature lookalikes ∧
      parse methodSignature "<I:[ILA::LB<+TL;*>.C;>(TLA;D)[[Ljava/lang/V;^TI;" =
        .ok lookalikes := by
  have hwell : WellFormed methodSignature lookalikes :=
    show MethodType.WellFormed lookalikes by decide
  exact ⟨hwell, (parse_print methodSignature lookalikes hwell).2⟩

/--
**Nothing but derivable texts is read, and nothing of a text is lost.**  The tree is well
formed and prints to the text it was read from.  A text that cannot be derived is
refused, and no two texts are read as the same tree.
-/
theorem parse_sound (form : SignatureForm) :
    (∀ t tree, form.parse t = .ok tree →
      form.Derivable t ∧ form.WellFormed tree ∧ form.print tree = t) ∧
    (∀ t, ¬ form.Derivable t → form.parse t = .error (.unplaced (.malformed form t))) ∧
    ∀ s t tree, form.parse s = .ok tree → form.parse t = .ok tree → s = t := by
  refine ⟨?_, ?_, ?_⟩
  · intro t tree htree
    obtain ⟨hwell, rfl⟩ := parse_ok_iff.mp htree
    exact ⟨hwell.derivable, hwell, rfl⟩
  · intro t hnot
    refine parse_error fun tree htree => hnot ?_
    exact Accepts.derivable (accepts_iff.mpr ⟨tree, htree⟩)
  · intro s t tree hs ht
    exact (parse_ok_iff.mp hs).2.symm.trans (parse_ok_iff.mp ht).2

theorem parse_sound_lookalikes :
    Derivable methodSignature (print methodSignature lookalikes) ∧
      ∀ t, parse methodSignature t = .ok lookalikes → print methodSignature lookalikes = t := by
  have hwell : WellFormed methodSignature lookalikes :=
    show MethodType.WellFormed lookalikes by decide
  have hread := parse_ok_iff.mpr ⟨hwell, rfl⟩
  obtain ⟨hsound, -, hinj⟩ := parse_sound methodSignature
  exact ⟨(hsound _ _ hread).1, fun t ht => hinj _ _ _ hread ht⟩

end SignatureForm

/-! ### Form by form -/

section Forms

variable {s : Text} {t : JavaType} {m : MethodType}

theorem readFieldDescriptor_ok_iff :
    readFieldDescriptor s = .ok t ↔ (t.WellFormed ∧ t.IsPlain) ∧ t.print = s :=
  @SignatureForm.parse_ok_iff .fieldDescriptor s t

theorem readMethodDescriptor_ok_iff :
    readMethodDescriptor s = .ok m ↔ (m.WellFormed ∧ m.IsPlain) ∧ m.print = s :=
  @SignatureForm.parse_ok_iff .methodDescriptor s m

theorem readFieldSignature_ok_iff :
    readFieldSignature s = .ok t ↔ (t.isReference = true ∧ t.WellFormed) ∧ t.print = s :=
  @SignatureForm.parse_ok_iff .fieldSignature s t

theorem readMethodSignature_ok_iff :
    readMethodSignature s = .ok m ↔ m.WellFormed ∧ m.print = s :=
  @SignatureForm.parse_ok_iff .methodSignature s m

end Forms

end ClassFormat
