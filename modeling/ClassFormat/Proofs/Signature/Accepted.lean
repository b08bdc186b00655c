/-
Which texts the readers of descriptors and signatures accept.

A class file holds such texts in five places, and whether it is accepted depends on
them only through this.
-/
import ClassFormat.Signature.Grammar

namespace ClassFormat

/-- The reader for texts of the form succeeds on the text. -/
def SignatureForm.Accepts (form : SignatureForm) (t : Text) : Prop :=
  match form with
  | fieldDescriptor => ∃ type, readFieldDescriptor t = .ok type
  | methodDescriptor => ∃ type, readMethodDescriptor t = .ok type
  | classSignature => ∃ signature, readClassSignature t = .ok signature
  | methodSignature => ∃ type, readMethodSignature t = .ok type
  | fieldSignature => ∃ type, readFieldSignature t = .ok type

/-- Whether a result is there can be told by looking at it. -/
instance {α : Type} (r : Except Fault α) : Decidable (∃ a, r = .ok a) :=
  match r with
  | .ok a => isTrue ⟨a, rfl⟩
  | .error _ => isFalse nofun

instance (form : SignatureForm) (t : Text) : Decidable (form.Accepts t) := by
  cases form <;> unfold SignatureForm.Accepts <;> infer_instance

end ClassFormat
