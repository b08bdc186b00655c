/-
Reading a single attribute on behalf of a class or one of its members.

The attribute is not added to its owner.  A mark of deprecation is the exception that leaves a
trace: its owner is deprecated from then on.
-/
import ClassFormat.ClassFile.Basic

namespace ClassFormat

/-- The class itself, or a member by its position. -/
inductive Owner where
  | self
  | field (position : Nat)
  | method (position : Nat)
  deriving DecidableEq, Repr

/-- What kind of owner it is. -/
def Owner.kind : Owner → OwnerKind
  | self => .ofClass
  | field _ => .ofField
  | method _ => .ofMethod

namespace ClassFile

/-- The attributes of an owner, if there is such an owner. -/
def attributesOf (c : ClassFile) : Owner → Option AttributeSet
  | .self => some c.attributes
  | .field i => c.fields[i]?.map fun f => f.attributes
  | .method i => c.methods[i]?.map fun m => m.attributes

/-- The class in which an owner is marked as deprecated. -/
def markDeprecated (c : ClassFile) : Owner → ClassFile
  | .self => { c with attributes := c.attributes.markDeprecated }
  | .field i => { c with fields := c.fields.modify i fun f => ⟨f.toMember.markDeprecated⟩ }
  | .method i => { c with methods := c.methods.modify i fun m => ⟨m.toMember.markDeprecated⟩ }

end ClassFile

/--
The outcome of reading an attribute, where the cursor stood afterwards, and the class from
then on.
-/
structure AttributeReading where
  outcome : Except Fault (Option (Attribute Payload))
  cursor : Cursor
  result : ClassFile

/--
Reads an attribute of a given name and length for an owner; a mark of deprecation gives no
attribute.
-/
def ClassFile.readAttribute (c : ClassFile) (owner : Owner) (name : Text) (length : Nat)
    (input : Cursor) : AttributeReading :=
  match owner.kind.decodeMarked c.pool name length input with
  | .ok none after => ⟨.ok none, after, c.markDeprecated owner⟩
  | .ok (some a) after => ⟨.ok (some a), after, c⟩
  | .error e after => ⟨.error e, after, c⟩

end ClassFormat
