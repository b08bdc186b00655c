/-
Annotations and the values of their elements.

Values nest: an array holds values, and a value can be an annotation.  Reading keeps every element
as it comes, also those whose name was there before, so that what is read and the bytes read
correspond one to one; `Annotation.merge` afterwards lets a repeated name keep its first place and
its last value.

How deep values nest is up to the input.  A value takes at least one byte before the values inside
it begin, so the number of bytes that are left bounds the depth.
-/
import ClassFormat.Bytes.Decoder
import ClassFormat.ConstantPool.Basic

namespace ClassFormat

mutual

/-- The value of an annotation element.  A literal carries the primitive type it is meant as. -/
inductive ElementValue where
  | literal (type : Primitive) (value : Literal)
  | string (text : Text)
  | classInfo (descriptor : Text)
  | enumConstant (type name : Text)
  | nested (content : Annotation)
  | array (values : List ElementValue)

/-- An annotation: the descriptor of its type, and its elements in order. -/
structure Annotation where
  type : Text
  elements : List Element

/-- A named value of an annotation. -/
structure Element where
  name : Text
  value : ElementValue

end

/-- The kind of constant that holds values of a primitive type. -/
def Primitive.constantTag : Primitive → Tag
  | byte | char | int | short | boolean => .integer
  | long => .long
  | float => .float
  | double => .double

/-- The value of a primitive type that a number refers to. -/
def ConstantPool.primitive (pool : ConstantPool) (type : Primitive) (index : Int) :
    Except Fault Literal := do
  match type.constantTag, ← pool.entry index with
  | .integer, .integer v => return .integer v
  | .long, .long v => return .long v
  | .float, .float v => return .float v
  | .double, .double v => return .double v
  | tag, e => mismatch index [tag] e

/-! ### Repeated names -/

/-- Gives an element its value: in its place if the name is there already, else at the end. -/
def Element.put : List Element → Element → List Element
  | [], e => [e]
  | x :: rest, e => if x.name = e.name then e :: rest else x :: Element.put rest e

mutual

/-- The annotation in which each name occurs once, at every level. -/
def Annotation.merge : Annotation → Annotation
  | ⟨type, elements⟩ => ⟨type, (Element.mergeAll elements).foldl Element.put []⟩

/-- The value in which each name of a nested annotation occurs once. -/
def ElementValue.merge : ElementValue → ElementValue
  | .literal t v => .literal t v
  | .string t => .string t
  | .classInfo d => .classInfo d
  | .enumConstant t n => .enumConstant t n
  | .nested a => .nested a.merge
  | .array vs => .array (ElementValue.mergeAll vs)

/-- The elements with merged values. -/
def Element.mergeAll : List Element → List Element
  | [] => []
  | ⟨name, value⟩ :: rest => ⟨name, value.merge⟩ :: Element.mergeAll rest

/-- The merged values. -/
def ElementValue.mergeAll : List ElementValue → List ElementValue
  | [] => []
  | v :: rest => v.merge :: ElementValue.mergeAll rest

end

/-! ### Decoding -/

open Decoder

/-- The text that the next two bytes refer to. -/
def ConstantPool.decodeText (pool : ConstantPool) (item : String) : Decoder Text := do
  let index ← u2 item
  ofResult (pool.utf8 index.toNat)

/-- A named value, whose value is read by the given decoder. -/
def Element.decodeWith (pool : ConstantPool) (value : Decoder ElementValue) :
    Decoder Element := do
  let name ← pool.decodeText "element_name_index"
  return ⟨name, ← value⟩

/-- An annotation, whose values are read by the given decoder. -/
def Annotation.decodeWith (pool : ConstantPool) (value : Decoder ElementValue) :
    Decoder Annotation := do
  let type ← pool.decodeText "type_index"
  let count ← u2 "num_element_value_pairs"
  return ⟨type, ← times count.toNat (Element.decodeWith pool value)⟩

namespace ElementValue

/-- A value after its tag, the values inside it being read by the given decoder. -/
def decodeBody (pool : ConstantPool) (value : Decoder ElementValue) (start : Nat) (tag : UInt8) :
    Decoder ElementValue := do
  match Char.ofNat tag.toNat with
  | 's' => return .string (← pool.decodeText "const_value_index")
  | 'e' =>
    let type ← u2 "type_name_index"
    let name ← u2 "const_name_index"
    let typeText ← ofResult (pool.utf8 type.toNat)
    return .enumConstant typeText (← ofResult (pool.utf8 name.toNat))
  | 'c' => return .classInfo (← pool.decodeText "class_info_index")
  | '@' => return .nested (← Annotation.decodeWith pool value)
  | '[' =>
    let count ← u2 "num_values"
    return .array (← times count.toNat value)
  | mark =>
    match Primitive.ofLetter? mark with
    | some type =>
      let index ← u2 "const_value_index"
      return .literal type (← ofResult (pool.primitive type index.toNat))
    | none => failAt start (.unknownElementTag tag)

/--
A value in which values nest no deeper than a given bound.  Where the bound is used up, so is
the input.
-/
def decodeWithin (pool : ConstantPool) : Nat → Decoder ElementValue
  | 0 => failHere (.endOfInput 1 "element_value tag" 0)
  | depth + 1 => do
    let start ← offset
    let tag ← u1 "element_value tag"
    decodeBody pool (decodeWithin pool depth) start tag

end ElementValue

/-- An annotation with all elements that the input has. -/
def Annotation.decode (pool : ConstantPool) : Decoder Annotation := do
  Annotation.decodeWith pool (ElementValue.decodeWithin pool (← remaining))

end ClassFormat
