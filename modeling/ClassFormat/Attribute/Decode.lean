/-
Decoding attributes.

Every attribute is framed: the declared length must not exceed what is left of the input, and
after the payload has been read the cursor must have moved by exactly that length.  Nothing keeps
a payload from reading past its frame meanwhile, so the second check is what makes the frame hold.

Which payloads are interpreted is laid down in one table per kind of owner.  A name that is not in
the table has its payload skipped.
-/
import ClassFormat.Attribute.Basic
import ClassFormat.Signature.Grammar

namespace ClassFormat

open Decoder

/-! ### Frames and lists -/

/-- The payloads that an owner interprets, by the names of their attributes. -/
abbrev PayloadTable (Payload : Type) := List (Text × Decoder Payload)

namespace Attribute

/-- A payload that must take exactly the declared length. -/
def framed {Payload : Type} (name : Text) (length : Nat) (payload : Decoder Payload) :
    Decoder (Attribute Payload) := do
  let start ← offset
  let left ← remaining
  if left < length then failAt start (.attributeTruncated name length left)
  else
    let p ← payload
    let consumed := (← offset) - start
    if consumed = length then return ⟨name, length, p⟩
    else failAt start (.attributeLength name length consumed)

/--
The payload of an attribute after its name and length, by a table; `other` stands for a
payload that is skipped.
-/
def decodeBy {Payload : Type} (table : PayloadTable Payload) (other : Payload) (name : Text)
    (length : Nat) : Decoder (Attribute Payload) :=
  match table.lookup name with
  | some payload => framed name length payload
  | none => framed name length do
    skip length "bytes"
    return other

/-- A counted list of attributes, each read by a decoder that gets its name and its length. -/
def decodeList {α : Type} (pool : ConstantPool) (body : Text → Nat → Decoder α) :
    Decoder (List α) := do
  let count ← u2 "attributes_count"
  times count.toNat do
    let name ← pool.decodeText "attribute_name_index"
    let length ← u4 "attribute_length"
    body name length.toNat

end Attribute

/-! ### Payloads -/

/-- The text or class that an index refers to, where index 0 stands for none. -/
def resolveOptional (resolve : Int → Except Fault Text) (index : UInt16) :
    Decoder (Option Text) :=
  if index = 0 then return none else do return some (← ofResult (resolve index.toNat))

namespace Payload

/-- The index of the value of a field. -/
def decodeConstantValue (pool : ConstantPool) : Decoder Payload := do
  let index ← u2 "constantvalue_index"
  let _ ← ofResult (pool.literal index.toNat)
  return .constantValue index

/-- The index of a signature that must follow a grammar. -/
def decodeSignature {α : Type} (pool : ConstantPool) (read : Text → Except Fault α) :
    Decoder Payload := do
  let index ← u2 "signature_index"
  let text ← ofResult (pool.utf8 index.toNat)
  let _ ← ofResult (read text)
  return .signature index

/-- The index of the name of a source file. -/
def decodeSourceFile (pool : ConstantPool) : Decoder Payload := do
  let index ← u2 "sourcefile_index"
  let _ ← ofResult (pool.utf8 index.toNat)
  return .sourceFile index

/-- The indices of the exceptions that a method declares. -/
def decodeExceptions (pool : ConstantPool) : Decoder Payload := do
  let count ← u2 "number_of_exceptions"
  let indices ← times count.toNat (u2 "exception_index")
  indices.forM fun index => do
    let _ ← ofResult (pool.className index.toNat)
  return .exceptions indices

/-- An entry of the table of nested classes. -/
def decodeInnerClass (pool : ConstantPool) : Decoder InnerClass := do
  let innerIndex ← u2
  let outerIndex ← u2
  let nameIndex ← u2
  let flags ← u2
  let inner ← ofResult (pool.className innerIndex.toNat)
  let outer ← resolveOptional pool.className outerIndex
  let name ← resolveOptional pool.utf8 nameIndex
  return ⟨inner, outer, name, flags⟩

/-- The table of nested classes. -/
def decodeInnerClasses (pool : ConstantPool) : Decoder Payload := do
  let count ← u2 "number_of_classes"
  return .innerClasses (← times count.toNat (decodeInnerClass pool))

/-- A declared parameter. -/
def decodeMethodParameter (pool : ConstantPool) : Decoder MethodParameter := do
  let nameIndex ← u2
  let flags ← u2
  return ⟨← resolveOptional pool.utf8 nameIndex, flags⟩

/-- The declared parameters of a method. -/
def decodeMethodParameters (pool : ConstantPool) : Decoder Payload := do
  let count ← u1 "parameters_count"
  return .methodParameters (← times count.toNat (decodeMethodParameter pool))

/-- All annotations of one attribute. -/
def decodeAnnotations (pool : ConstantPool) : Decoder Payload := do
  let count ← u2 "num_annotations"
  let found ← times count.toNat <| Annotation.decode pool
  return .annotations (found.map Annotation.merge)

end Payload

/-! ### Method bodies -/

namespace Code

/-- The line of one position. -/
def decodeLineNumber : Decoder LineNumber := do
  return ⟨← u2, ← u2⟩

/-- A table of line numbers. -/
def decodeLineNumbers : Decoder CodePayload := do
  let count ← u2 "line_number_table_length"
  return .lineNumbers (← times count.toNat decodeLineNumber)

/-- What is interpreted of the attributes of a method body. -/
def table : PayloadTable CodePayload :=
  [("LineNumberTable", decodeLineNumbers)]

/-- An attribute of a method body. -/
def decodeAttribute (name : Text) (length : Nat) : Decoder (Attribute CodePayload) :=
  Attribute.decodeBy table .uninterpreted name length

/-- An entry of the exception table. -/
def decodeHandler (pool : ConstantPool) : Decoder ExceptionHandler := do
  let first ← u2
  let last ← u2
  let handler ← u2
  let catchIndex ← u2
  return ⟨first, last, handler, ← resolveOptional pool.className catchIndex⟩

/-- A method body with its attributes. -/
def decode (pool : ConstantPool) : Decoder Code := do
  let maxStack ← u2 "max_stack"
  let maxLocals ← u2 "max_locals"
  let size ← u4 "code_length"
  let instructions ← pass size.toNat "code"
  let count ← u2 "exception_table_length"
  let handlers ← times count.toNat (decodeHandler pool)
  let attributes ← Attribute.decodeList pool decodeAttribute
  return ⟨maxStack, maxLocals, instructions, handlers, attributes⟩

end Code

/-! ### Owners -/

/-- What can have attributes besides a method body. -/
inductive OwnerKind where
  | ofClass
  | ofField
  | ofMethod
  deriving DecidableEq, Repr

namespace OwnerKind

/-- What is interpreted of the attributes of every owner. -/
def sharedTable (pool : ConstantPool) : PayloadTable Payload :=
  [("RuntimeVisibleAnnotations", Payload.decodeAnnotations pool),
   ("RuntimeInvisibleAnnotations", Payload.decodeAnnotations pool)]

/-- What is interpreted of the attributes of an owner. -/
def table (pool : ConstantPool) : OwnerKind → PayloadTable Payload
  | ofClass =>
    ("SourceFile", Payload.decodeSourceFile pool)
      :: ("Signature", Payload.decodeSignature pool readClassSignature)
      :: ("InnerClasses", Payload.decodeInnerClasses pool)
      :: sharedTable pool
  | ofField =>
    ("ConstantValue", Payload.decodeConstantValue pool)
      :: ("Signature", Payload.decodeSignature pool readFieldSignature)
      :: sharedTable pool
  | ofMethod =>
    ("Code", Payload.code <$> Code.decode pool)
      :: ("Exceptions", Payload.decodeExceptions pool)
      :: ("Signature", Payload.decodeSignature pool readMethodSignature)
      :: ("MethodParameters", Payload.decodeMethodParameters pool)
      :: sharedTable pool

/-- An attribute by the table of its owner alone. -/
def decodeAttribute (pool : ConstantPool) (owner : OwnerKind) (name : Text) (length : Nat) :
    Decoder (Attribute Payload) :=
  Attribute.decodeBy (owner.table pool) .uninterpreted name length

/--
An attribute of a class or of a member.  The mark of deprecation has no payload and gives no
attribute; its owner takes note of it.
-/
def decodeMarked (pool : ConstantPool) (owner : OwnerKind) (name : Text) (length : Nat) :
    Decoder (Option (Attribute Payload)) :=
  if name = ("Deprecated" : Text) then
    if length = 0 then return none else failHere (.markerNotEmpty length)
  else some <$> owner.decodeAttribute pool name length

end OwnerKind

namespace AttributeSet

/-- The attributes and the marks of a list. -/
def ofMarked (found : List (Option (Attribute Payload))) : AttributeSet :=
  ⟨found.filterMap id, found.any Option.isNone⟩

/-- The counted list of attributes of an owner. -/
def decode (pool : ConstantPool) (owner : OwnerKind) : Decoder AttributeSet := do
  return .ofMarked (← Attribute.decodeList pool (owner.decodeMarked pool))

end AttributeSet

end ClassFormat
