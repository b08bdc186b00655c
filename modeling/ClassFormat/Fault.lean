/-
What can be wrong with a class file.

A `Fault` is a cause together with the offset of the byte at which it was noticed, where the
cause has a place of its own; a bad reference between constants, for instance, has none.  The
wording is in `Cause.text` and nowhere else.

For bytes that are no text and for a text that does not follow its grammar, a message can go on
with what the codec or the parser has to say about it.  Those words belong to them and are left
out.  They depend on the bytes or on the text alone, which the cause carries, so that messages
with equal causes are equal in those words as well.
-/
import ClassFormat.ConstantPool.Tag
import ClassFormat.Signature.Basic
import ClassFormat.Text.Numeral
import ClassFormat.Text.Quoted

namespace ClassFormat

/-- The ways in which the bytes of a class file, or a query on them, can go wrong. -/
inductive Cause where
  /-- The file does not begin with the magic number. -/
  | badMagic (found : UInt32)
  /-- The version lies outside the accepted range of major versions. -/
  | unsupportedVersion (major minor : UInt16) (lowest highest : Int)
  /-- The count of the constant pool is zero. -/
  | emptyPool
  /-- No kind of constant has this tag. -/
  | unknownTag (tag : UInt8) (index : Nat)
  /-- A constant of two slots stands in the last slot. -/
  | missingSecondSlot (index count : Nat)
  /-- The bytes of a text constant are no modified UTF-8. -/
  | undecodableText (index : Nat) (bytes : List UInt8)
  /-- An index lies outside the constant pool. -/
  | indexOutOfRange (index : Int) (last : Nat)
  /-- An index names the second slot of a constant. -/
  | secondSlot (index : Int)
  /-- An index names a constant of another kind than is needed there. -/
  | wrongKind (index : Int) (expected : List Tag) (found : Tag)
  /-- A constant refers to a constant of the wrong kind. -/
  | wrongReference (owner index : Nat) (expected : List Tag) (found : Tag)
  /-- The reference kind of a method handle is not one of 1 to 9. -/
  | badReferenceKind (owner : Nat) (kind : UInt8)
  /-- The input ends before the item does. -/
  | endOfInput (needed : Nat) (item : String) (left : Nat)
  /-- An attribute declares more bytes than there are. -/
  | attributeTruncated (name : Text) (declared left : Nat)
  /-- The payload of an attribute has another length than was declared. -/
  | attributeLength (name : Text) (declared consumed : Nat)
  /-- The attribute that marks its owner as deprecated has a payload. -/
  | markerNotEmpty (declared : Nat)
  /-- No kind of annotation element value has this tag. -/
  | unknownElementTag (tag : UInt8)
  /-- Bytes follow the end of the class. -/
  | trailingBytes (count : Nat)
  /-- A descriptor or signature does not follow its grammar. -/
  | malformed (form : SignatureForm) (text : Text)
  deriving DecidableEq

/-- The classes of faults that callers can tell apart. -/
inductive FaultKind where
  | header
  | constantPool
  | endOfInput
  | truncatedAttribute
  | attributeLength
  | trailingData
  | descriptor
  | general
  deriving DecidableEq, Repr

/-- A cause, and the offset of the byte that shows it. -/
structure Fault where
  cause : Cause
  offset : Option Nat
  deriving DecidableEq

namespace Cause

/-- The class of faults that a cause belongs to. -/
def kind : Cause → FaultKind
  | badMagic _ | unsupportedVersion .. => .header
  | emptyPool | unknownTag .. | missingSecondSlot .. | undecodableText .. | indexOutOfRange ..
  | secondSlot _ | wrongKind .. | wrongReference .. | badReferenceKind .. => .constantPool
  | endOfInput .. => .endOfInput
  | attributeTruncated .. => .truncatedAttribute
  | attributeLength .. | markerNotEmpty _ => .attributeLength
  | unknownElementTag _ => .general
  | trailingBytes _ => .trailingData
  | malformed .. => .descriptor

/-- Several kinds of constants in words. -/
def tagNames (tags : List Tag) : Text :=
  .join "/" (tags.map fun t => .ofString t.name)

/-- The cause in words. -/
def text : Cause → Text
  | badMagic found => .concat ["Invalid class file magic: 0x", .hex found.toNat]
  | unsupportedVersion major minor lowest highest =>
    .concat ["Unsupported class file version ", .ofNat major.toNat, ".", .ofNat minor.toNat,
      " (accepted majors: ", .ofInt lowest, "..", .ofInt highest, ")"]
  | emptyPool => "constant_pool_count must be at least 1"
  | unknownTag tag index =>
    .concat ["Unknown constant pool tag ", .ofNat tag.toNat, " at index ", .ofNat index]
  | missingSecondSlot index count =>
    .concat ["8-byte constant at index ", .ofNat index, " overflows constant_pool_count ",
      .ofNat count]
  | undecodableText index _ => .concat ["Invalid modified UTF-8 at index ", .ofNat index]
  | indexOutOfRange index last =>
    .concat ["Constant pool index ", .ofInt index, " out of range 1..", .ofNat last]
  | secondSlot index =>
    .concat ["Constant pool index ", .ofInt index,
      " is the unusable second slot of a long/double"]
  | wrongKind index expected found =>
    .concat ["Expected ", tagNames expected, " at index ", .ofInt index, ", got ", found.name]
  | wrongReference owner index expected found =>
    .concat ["Entry ", .ofNat owner, " refers to index ", .ofNat index, " (", found.name,
      "), expected ", tagNames expected]
  | badReferenceKind owner kind =>
    .concat ["Entry ", .ofNat owner, " has invalid reference kind ", .ofNat kind.toNat]
  | endOfInput needed item left =>
    .concat ["Need ", .ofNat needed, " byte(s) for ", item, ", only ", .ofNat left, " left"]
  | attributeTruncated name declared left =>
    .concat ["Attribute ", name, " declares ", .ofNat declared, " bytes, only ", .ofNat left,
      " left"]
  | attributeLength name declared consumed =>
    .concat ["Attribute ", name, " declares ", .ofNat declared, " bytes but ", .ofNat consumed,
      " were decoded"]
  | markerNotEmpty declared =>
    .concat ["Deprecated attribute must be empty, declares ", .ofNat declared, " bytes"]
  | unknownElementTag tag =>
    .concat ["Unknown annotation element value tag ",
      Text.quoted [.scalar (Char.ofNat tag.toNat)]]
  | trailingBytes count => .concat [.ofNat count, " byte(s) after the class attributes"]
  | malformed form text => .concat ["Malformed ", form.title, " ", text.quoted]

end Cause

namespace Fault

/-- The fault in words, with its place if it has one. -/
def message (fault : Fault) : Text :=
  match fault.offset with
  | some n => .concat [fault.cause.text, " (at byte ", .ofNat n, ")"]
  | none => fault.cause.text

/-- A fault at a given byte. -/
def located (cause : Cause) (offset : Nat) : Fault :=
  ⟨cause, some offset⟩

/-- A fault that has no place of its own. -/
def unplaced (cause : Cause) : Fault :=
  ⟨cause, none⟩

end Fault

end ClassFormat
