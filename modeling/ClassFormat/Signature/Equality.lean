/-
Equality of types is decidable.

Types nest through lists of segments and of type arguments, so the decision procedures for the
five kinds of node and the two kinds of list are defined together.
-/
import ClassFormat.Signature.Basic

namespace ClassFormat

mutual

/-- Decides equality of element types. -/
def ElementType.decEq : (a b : ElementType) → Decidable (a = b)
  | .primitive p, .primitive q => decidable_of_iff (p = q) (by simp)
  | .variable m, .variable n => decidable_of_iff (m = n) (by simp)
  | .object c, .object d =>
    have := c.decEq d
    decidable_of_iff (c = d) (by simp)
  | .primitive _, .variable _ | .primitive _, .object _ | .variable _, .primitive _
  | .variable _, .object _ | .object _, .primitive _ | .object _, .variable _ =>
    isFalse (by simp)

/-- Decides equality of types. -/
def JavaType.decEq : (a b : JavaType) → Decidable (a = b)
  | ⟨e, m⟩, ⟨f, n⟩ =>
    have := e.decEq f
    decidable_of_iff (e = f ∧ m = n) (by simp)

/-- Decides equality of class types. -/
def ClassType.decEq : (a b : ClassType) → Decidable (a = b)
  | ⟨p, o, i⟩, ⟨q, u, j⟩ =>
    have := o.decEq u
    have := ClassSegment.decEqList i j
    decidable_of_iff (p = q ∧ o = u ∧ i = j) (by simp)

/-- Decides equality of segments. -/
def ClassSegment.decEq : (a b : ClassSegment) → Decidable (a = b)
  | ⟨m, r⟩, ⟨n, s⟩ =>
    have := TypeArgument.decEqList r s
    decidable_of_iff (m = n ∧ r = s) (by simp)

/-- Decides equality of type arguments. -/
def TypeArgument.decEq : (a b : TypeArgument) → Decidable (a = b)
  | .any, .any => isTrue rfl
  | .bounded v t, .bounded w u =>
    have := t.decEq u
    decidable_of_iff (v = w ∧ t = u) (by simp)
  | .any, .bounded .. | .bounded .., .any => isFalse (by simp)

/-- Decides equality of lists of segments. -/
def ClassSegment.decEqList : (a b : List ClassSegment) → Decidable (a = b)
  | [], [] => isTrue rfl
  | s :: r, t :: q =>
    have := s.decEq t
    have := ClassSegment.decEqList r q
    decidable_of_iff (s = t ∧ r = q) (by simp)
  | [], _ :: _ | _ :: _, [] => isFalse (by simp)

/-- Decides equality of lists of type arguments. -/
def TypeArgument.decEqList : (a b : List TypeArgument) → Decidable (a = b)
  | [], [] => isTrue rfl
  | s :: r, t :: q =>
    have := s.decEq t
    have := TypeArgument.decEqList r q
    decidable_of_iff (s = t ∧ r = q) (by simp)
  | [], _ :: _ | _ :: _, [] => isFalse (by simp)

end

instance : DecidableEq ElementType := ElementType.decEq

instance : DecidableEq JavaType := JavaType.decEq

instance : DecidableEq ClassType := ClassType.decEq

instance : DecidableEq ClassSegment := ClassSegment.decEq

instance : DecidableEq TypeArgument := TypeArgument.decEq

deriving instance DecidableEq for ReturnType

deriving instance DecidableEq for TypeParameter

deriving instance DecidableEq for MethodType

deriving instance DecidableEq for ClassSignature

end ClassFormat
