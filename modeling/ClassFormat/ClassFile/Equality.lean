/-
Equality of class files is decidable.

Annotations nest through lists of elements and of values, so the decision procedures for the
three kinds of node and the two kinds of list are defined together.  For the parts around them
the derived ones will do.
-/
import ClassFormat.ClassFile.Basic

namespace ClassFormat

mutual

/-- Decides equality of values. -/
def ElementValue.decEq : (a b : ElementValue) → Decidable (a = b)
  | .literal t v, .literal u w => decidable_of_iff (t = u ∧ v = w) (by simp)
  | .string t, .string u => decidable_of_iff (t = u) (by simp)
  | .classInfo d, .classInfo e => decidable_of_iff (d = e) (by simp)
  | .enumConstant t m, .enumConstant u n => decidable_of_iff (t = u ∧ m = n) (by simp)
  | .nested a, .nested b =>
    have := a.decEq b
    decidable_of_iff (a = b) (by simp)
  | .array vs, .array ws =>
    have := ElementValue.decEqList vs ws
    decidable_of_iff (vs = ws) (by simp)
  | .literal .., .string _ | .literal .., .classInfo _ | .literal .., .enumConstant ..
  | .literal .., .nested _ | .literal .., .array _ | .string _, .literal ..
  | .string _, .classInfo _ | .string _, .enumConstant .. | .string _, .nested _
  | .string _, .array _ | .classInfo _, .literal .. | .classInfo _, .string _
  | .classInfo _, .enumConstant .. | .classInfo _, .nested _ | .classInfo _, .array _
  | .enumConstant .., .literal .. | .enumConstant .., .string _ | .enumConstant .., .classInfo _
  | .enumConstant .., .nested _ | .enumConstant .., .array _ | .nested _, .literal ..
  | .nested _, .string _ | .nested _, .classInfo _ | .nested _, .enumConstant ..
  | .nested _, .array _ | .array _, .literal .. | .array _, .string _ | .array _, .classInfo _
  | .array _, .enumConstant .. | .array _, .nested _ => isFalse (by simp)

/-- Decides equality of annotations. -/
def Annotation.decEq : (a b : Annotation) → Decidable (a = b)
  | ⟨t, es⟩, ⟨u, fs⟩ =>
    have := Element.decEqList es fs
    decidable_of_iff (t = u ∧ es = fs) (by simp)

/-- Decides equality of named values. -/
def Element.decEq : (a b : Element) → Decidable (a = b)
  | ⟨m, v⟩, ⟨n, w⟩ =>
    have := v.decEq w
    decidable_of_iff (m = n ∧ v = w) (by simp)

/-- Decides equality of lists of values. -/
def ElementValue.decEqList : (a b : List ElementValue) → Decidable (a = b)
  | [], [] => isTrue rfl
  | v :: vs, w :: ws =>
    have := v.decEq w
    have := ElementValue.decEqList vs ws
    decidable_of_iff (v = w ∧ vs = ws) (by simp)
  | [], _ :: _ | _ :: _, [] => isFalse (by simp)

/-- Decides equality of lists of named values. -/
def Element.decEqList : (a b : List Element) → Decidable (a = b)
  | [], [] => isTrue rfl
  | e :: es, f :: fs =>
    have := e.decEq f
    have := Element.decEqList es fs
    decidable_of_iff (e = f ∧ es = fs) (by simp)
  | [], _ :: _ | _ :: _, [] => isFalse (by simp)

end

instance : DecidableEq Annotation := Annotation.decEq

deriving instance DecidableEq for CodePayload

deriving instance DecidableEq for Attribute

deriving instance DecidableEq for Code

deriving instance DecidableEq for Payload

deriving instance DecidableEq for AttributeSet

deriving instance DecidableEq for Member

deriving instance DecidableEq for Field

deriving instance DecidableEq for Method

deriving instance DecidableEq for ClassFile

end ClassFormat
