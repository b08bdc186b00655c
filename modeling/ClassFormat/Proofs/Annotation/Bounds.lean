/-
How much comes of reading annotations.

Each value that is read takes at least three bytes of its own, its mark and an index or a count,
or the mark and the four bytes of an annotation that is inside it.  So a third of the bytes
bounds the number of values at all levels, those included that a later value of the same name
replaces.  Together with the depth to which readings nest, this says that reading annotations
ends, and how soon.
-/
import ClassFormat.Attribute.Decode
import ClassFormat.Proofs.Annotation.Nesting
import Mathlib.Algebra.GroupWithZero.Nat

namespace ClassFormat

open Decoder

variable {pool : ConstantPool} {c c' : Cursor}

/-! ### How many values there are -/

mutual

/-- How many values there are in an annotation, at all levels. -/
def Annotation.valueCount : Annotation → Nat
  | ⟨_, elements⟩ => Element.valueCountAll elements

/-- How many values there are in a value, at all levels and with itself. -/
def ElementValue.valueCount : ElementValue → Nat
  | .literal .. | .string _ | .classInfo _ | .enumConstant .. => 1
  | .nested content => content.valueCount + 1
  | .array values => ElementValue.valueCountAll values + 1

/-- How many values there are in named values. -/
def Element.valueCountAll : List Element → Nat
  | [] => 0
  | ⟨_, value⟩ :: rest => value.valueCount + Element.valueCountAll rest

/-- How many values there are in values. -/
def ElementValue.valueCountAll : List ElementValue → Nat
  | [] => 0
  | value :: rest => value.valueCount + ElementValue.valueCountAll rest

end

mutual

theorem AnnotationLayout.valueCount_view_le (pool : ConstantPool) (x : AnnotationLayout) :
    3 * (x.view pool).valueCount + 4 ≤ x.encode.length := by
  obtain ⟨type, elements⟩ := x
  have := ElementLayout.valueCountAll_viewAll_le pool elements
  simp only [AnnotationLayout.view, Annotation.valueCount, AnnotationLayout.encode,
    List.length_append, Encoder.length_u2]
  omega

theorem ValueLayout.valueCount_view_le (pool : ConstantPool) (x : ValueLayout) :
    3 * (x.view pool).valueCount ≤ x.encode.length := by
  match x with
  | .literal .. | .string _ | .classInfo _ | .enumConstant .. =>
    simp only [ValueLayout.view, ElementValue.valueCount, ValueLayout.encode,
      List.length_append, Encoder.length_mark, Encoder.length_u2]
    omega
  | .nested content =>
    have := content.valueCount_view_le pool
    simp only [ValueLayout.view, ElementValue.valueCount, ValueLayout.encode,
      List.length_append, Encoder.length_mark]
    omega
  | .array values =>
    have := ValueLayout.valueCountAll_viewAll_le pool values
    simp only [ValueLayout.view, ElementValue.valueCount, ValueLayout.encode,
      List.length_append, Encoder.length_mark, Encoder.length_u2]
    omega

theorem ElementLayout.valueCountAll_viewAll_le (pool : ConstantPool) (xs : List ElementLayout) :
    3 * Element.valueCountAll (ElementLayout.viewAll pool xs) ≤
      (ElementLayout.encodeAll xs).length := by
  match xs with
  | [] => exact Nat.le_refl 0
  | ⟨name, value⟩ :: rest =>
    have := value.valueCount_view_le pool
    have := ElementLayout.valueCountAll_viewAll_le pool rest
    simp only [ElementLayout.viewAll, Element.valueCountAll, ElementLayout.encodeAll,
      List.length_append]
    omega

theorem ValueLayout.valueCountAll_viewAll_le (pool : ConstantPool) (xs : List ValueLayout) :
    3 * ElementValue.valueCountAll (ValueLayout.viewAll pool xs) ≤
      (ValueLayout.encodeAll xs).length := by
  match xs with
  | [] => exact Nat.le_refl 0
  | value :: rest =>
    have := value.valueCount_view_le pool
    have := ValueLayout.valueCountAll_viewAll_le pool rest
    simp only [ValueLayout.viewAll, ElementValue.valueCountAll, ValueLayout.encodeAll,
      List.length_append]
    omega

end

/-! ### What a success has paid for -/

theorem ElementValue.valueCount_of_decode {v : ElementValue} (h : decode pool c = .ok v c') :
    3 * v.valueCount ≤ c'.offset - c.offset ∧ 3 * v.valueCount ≤ c.remaining := by
  have hreads := reads_decodeWithin pool c.remaining
  obtain ⟨-, ⟨x, -, rfl, rfl⟩, hover⟩ := hreads.explains h
  have := x.valueCount_view_le pool
  have := hover.offset
  have := hover.remaining_eq
  omega

namespace Annotation

theorem valueCount_of_decode {a : Annotation} (h : decode pool c = .ok a c') :
    3 * a.valueCount ≤ c'.offset - c.offset ∧ 3 * a.valueCount ≤ c.remaining := by
  obtain ⟨-, ⟨x, -, rfl, rfl⟩, hover⟩ := (reads_decode pool).explains h
  have := x.valueCount_view_le pool
  have := hover.offset
  have := hover.remaining_eq
  omega

/-- Annotations one after the other pay for their values together. -/
theorem valueCount_of_times {n : Nat} {found : List Annotation}
    (h : times n (decode pool) c = .ok found c') :
    3 * (found.map valueCount).sum ≤ c'.offset - c.offset := by
  induction n generalizing c found with
  | zero =>
      cases h
      exact Nat.zero_le _
  | succ n ih =>
      obtain ⟨a, c₁, hfirst, h⟩ := bind_ok.mp h
      obtain ⟨rest, _, hrest, h⟩ := bind_ok.mp h
      cases h
      have := valueCount_of_decode hfirst
      have := ih hrest
      have := (reads_decode pool).measured hfirst
      have := (reads_times (reads_decode pool) n).measured hrest
      rw [List.map_cons, List.sum_cons]
      omega

end Annotation
/-! ### The bounds -/

/-- What bounds the reading of annotations, whatever the pool and the input are. -/
structure Annotation.Bounded (pool : ConstantPool) : Prop where
  /-- The two readers call each other; that a bound is counted down does not show. -/
  recursion :
    ElementValue.decode pool = ElementValue.decodeWith pool (ElementValue.decode pool) ∧
      decode pool = decodeWith pool (ElementValue.decode pool)
  /-- Of the readings inside a value, no others have a say than those that are asked for. -/
  valueAsks : ∀ (other : Decoder ElementValue) (c : Cursor),
    (∀ c', ElementValue.Asks pool (ElementValue.decode pool) c c' →
      other c' = ElementValue.decode pool c') →
    ElementValue.decodeWith pool other c = ElementValue.decode pool c
  /-- Of the readings inside an annotation, no others have a say than those asked for. -/
  annotationAsks : ∀ (other : Decoder ElementValue) (c : Cursor),
    (∀ c', Asks pool (ElementValue.decode pool) c c' → other c' = ElementValue.decode pool c') →
    decodeWith pool other c = decode pool c
  /-- No reading asks for another one, and that for another, without an end. -/
  ends : WellFounded fun c' c => ElementValue.Asks pool (ElementValue.decode pool) c c'
  /-- Readings of values nest no deeper than a third of what is left, and one. -/
  valueDepth : ∀ (c : Cursor) (cs : List Cursor),
    List.IsChain (ElementValue.Asks pool (ElementValue.decode pool)) (c :: cs) →
      (c :: cs).length ≤ c.remaining / 3 + 1
  /-- So do those that an annotation asks for. -/
  annotationDepth : ∀ (c c₀ : Cursor) (cs : List Cursor),
    Asks pool (ElementValue.decode pool) c c₀ →
    List.IsChain (ElementValue.Asks pool (ElementValue.decode pool)) (c₀ :: cs) →
      (c₀ :: cs).length ≤ c.remaining / 3 + 1
  /-- Whatever would be done with values that nest deeper, the outcome is there without it. -/
  levels : ∀ (deeper : Decoder ElementValue) (c : Cursor) (n : Nat), c.remaining / 3 + 1 ≤ n →
    ElementValue.decodeLevels pool deeper n c = ElementValue.decode pool c ∧
      decodeWith pool (ElementValue.decodeLevels pool deeper n) c = decode pool c
  /-- A third of the bytes that a value takes bounds how many values it consists of. -/
  valueCount : ∀ (c c' : Cursor) (v : ElementValue), ElementValue.decode pool c = .ok v c' →
    v.valueCount ≤ (c'.offset - c.offset) / 3 ∧ v.valueCount ≤ c.remaining / 3
  /-- A third of the bytes that an annotation takes bounds how many values it has. -/
  annotationCount : ∀ (c c' : Cursor) (a : Annotation), decode pool c = .ok a c' →
    a.valueCount ≤ (c'.offset - c.offset) / 3 ∧ a.valueCount ≤ c.remaining / 3
  /-- The same holds of all annotations of an attribute together, before they are merged. -/
  attributeCount : ∀ (c c' : Cursor) (p : Payload), Payload.decodeAnnotations pool c = .ok p c' →
    ∃ count c₁ found, u2 "num_annotations" c = .ok count c₁ ∧
      times count.toNat (decode pool) c₁ = .ok found c' ∧
      p = .annotations (found.map merge) ∧
      (found.map Annotation.valueCount).sum ≤ (c'.offset - c.offset) / 3 ∧
      (found.map Annotation.valueCount).sum ≤ c.remaining / 3

namespace Annotation

theorem attributeCount_of_decodeAnnotations {p : Payload}
    (h : Payload.decodeAnnotations pool c = .ok p c') :
    ∃ count c₁ found, u2 "num_annotations" c = .ok count c₁ ∧
      times count.toNat (decode pool) c₁ = .ok found c' ∧
      p = .annotations (found.map merge) ∧
      (found.map valueCount).sum ≤ (c'.offset - c.offset) / 3 ∧
      (found.map valueCount).sum ≤ c.remaining / 3 := by
  obtain ⟨count, c₁, hcount, h⟩ := bind_ok.mp h
  obtain ⟨found, _, hfound, h⟩ := bind_ok.mp h
  cases h
  refine ⟨count, c₁, found, hcount, hfound, rfl, ?_⟩
  have := valueCount_of_times hfound
  have := (reads_u2 _).measured hcount
  have := (reads_times (reads_decode pool) _).measured hfound
  omega

/--
**Reading annotations ends, within bounds set by the input.**  Whatever the counts in the input
say, readings nest no deeper than a third of what is left, and no more values come of it than a
third of what was read.
-/
theorem decode_bounded (pool : ConstantPool) : Bounded pool where
  recursion := ⟨ElementValue.decode_eq pool, decode_eq pool⟩
  valueAsks := by
    intro other c h
    rw [ElementValue.decode_eq]
    exact ElementValue.decodeWith_eq_of h
  annotationAsks := by
    intro other c h
    rw [decode_eq]
    exact decodeWith_eq_of h
  ends := by
    apply Subrelation.wf (r := InvImage (· < ·) Cursor.remaining) _ (measure Cursor.remaining).wf
    intro c' c hasks
    have := ElementValue.remaining_of_asks ElementValue.decode_forward hasks
    show c'.remaining < c.remaining
    omega
  valueDepth := by
    intro c cs hchain
    have := ElementValue.length_chain_le hchain
    rw [List.length_cons]
    omega
  annotationDepth := by
    intro c c₀ cs hasks hchain
    have := remaining_of_asks ElementValue.decode_forward hasks
    have := ElementValue.length_chain_le hchain
    rw [List.length_cons]
    omega
  levels := by
    intro deeper c n h
    refine ⟨ElementValue.decodeLevels_eq_decode deeper (by omega), ?_⟩
    rw [decode_eq]
    refine decodeWith_eq_of fun c' hasks => ElementValue.decodeLevels_eq_decode deeper ?_
    have := remaining_of_asks ElementValue.decode_forward hasks
    omega
  valueCount := by
    intro c c' v h
    have := ElementValue.valueCount_of_decode h
    omega
  annotationCount := by
    intro c c' a h
    have := valueCount_of_decode h
    omega
  attributeCount := fun _ _ _ => attributeCount_of_decodeAnnotations

/--
Two arrays that each announce one value nest as deep as their six bytes allow, and then the input
is over.  An annotation that overwrites an element has read four values, one more than it shows.
-/
theorem decode_bounded_announced :
    let pool : ConstantPool := .ofEntries [.utf8 "a"]
    let c : Cursor := .start [0x5B, 0, 1, 0x5B, 0, 1]
    let c₁ : Cursor := ⟨3, [0x5B, 0, 1], []⟩
    let c₂ : Cursor := ⟨6, [], []⟩
    let x : AnnotationLayout := ⟨1, [⟨1, .string 1⟩, ⟨1, .array [.string 1, .string 1]⟩]⟩
    (List.IsChain (ElementValue.Asks pool (ElementValue.decode pool)) [c, c₁, c₂] ∧
      [c, c₁, c₂].length = 3 ∧ 3 ≤ c.remaining / 3 + 1 ∧
      ElementValue.decode pool c = .error (.located (.endOfInput 1 "element_value tag" 0) 6) c₂) ∧
    ∃ a c', decode pool (.start x.encode) = .ok a c' ∧ x.encode.length = 20 ∧
      a.valueCount = 4 ∧ a.merge.valueCount = 3 ∧ 4 ≤ (c'.offset - 0) / 3 := by
  intro pool c c₁ c₂ x
  have hinner : ElementValue.Asks pool (ElementValue.decode pool) c₁ c₂ :=
    .item rfl (show u1 _ c₁ = .ok 0x5B ⟨4, [0, 1], []⟩ from rfl)
      (show u2 _ _ = .ok 1 c₂ from rfl) Nat.zero_lt_one rfl
  have houter : ElementValue.Asks pool (ElementValue.decode pool) c c₁ :=
    .item rfl (show u1 _ c = .ok 0x5B ⟨1, [0, 1, 0x5B, 0, 1], []⟩ from rfl)
      (show u2 _ _ = .ok 1 c₁ from rfl) Nat.zero_lt_one rfl
  have hchain : List.IsChain (ElementValue.Asks pool (ElementValue.decode pool)) [c, c₁, c₂] :=
    .cons_cons houter (.cons_cons hinner (.singleton c₂))
  refine ⟨⟨hchain, rfl, (decode_bounded pool).valueDepth c [c₁, c₂] hchain, rfl⟩, ?_⟩
  have hok : x.WellFormed pool := by decide +kernel
  have hrest : (Cursor.start x.encode).rest = x.encode ++ [] := (List.append_nil _).symm
  obtain ⟨c', hread, -⟩ := (reads_decode pool).accepts ⟨x, hok, rfl, rfl⟩ hrest
  have hcount : (x.view pool).valueCount = 4 := by decide +kernel
  have hbound := ((decode_bounded pool).annotationCount _ c' _ hread).1
  rw [hcount] at hbound
  exact ⟨x.view pool, c', hread, by decide +kernel, hcount, by decide +kernel, hbound⟩

end Annotation

end ClassFormat
