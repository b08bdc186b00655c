/-
Decoding a constant pool.

The pool begins with its count, and each constant with the code of its kind.  References may
point forwards, so they are checked only when all constants have been read: every constant must
refer to constants of the kinds it needs.
-/
import ClassFormat.Bytes.Decoder
import ClassFormat.ConstantPool.Basic
import ClassFormat.Text.ModifiedUtf8

namespace ClassFormat

open Decoder

namespace Entry

/-- The body of a constant of a given kind. -/
def decodeBody (start index : Nat) : Tag → Decoder Entry
  | .utf8 => do
    let length ← u2 "utf8 length"
    let bytes ← take length.toNat "utf8 bytes"
    match ModifiedUtf8.decode bytes with
    | some t => return .utf8 t
    | none => failAt start (.undecodableText index bytes)
  | .integer => do return .integer (← i4)
  | .float => do return .float (← f4)
  | .long => do return .long (← i8)
  | .double => do return .double (← f8)
  | .classRef => do return .classRef (← u2)
  | .string => do return .string (← u2)
  | .fieldRef => do return .fieldRef (← u2) (← u2)
  | .methodRef => do return .methodRef (← u2) (← u2)
  | .interfaceMethodRef => do return .interfaceMethodRef (← u2) (← u2)
  | .nameAndType => do return .nameAndType (← u2) (← u2)
  | .methodHandle => do return .methodHandle (← u1 "reference kind") (← u2)
  | .methodType => do return .methodType (← u2)
  | .dynamic => do return .dynamic (← u2) (← u2)
  | .invokeDynamic => do return .invokeDynamic (← u2) (← u2)
  | .moduleRef => do return .moduleRef (← u2)
  | .packageRef => do return .packageRef (← u2)

/--
The constant after its tag.  It gets the number `index` in a pool of the given count, and if it
takes two slots it must leave room for the second.
-/
def decodeTagged (index count start : Nat) (code : UInt8) : Decoder Entry :=
  match Tag.ofCode? code with
  | none => failAt start (.unknownTag code index)
  | some tag =>
    if tag ∈ [Tag.long, Tag.double] && count ≤ index + 1 then
      failAt start (.missingSecondSlot index count)
    else decodeBody start index tag

/-- The constant that gets the number `index` in a pool of the given count. -/
def decode (index count : Nat) : Decoder Entry := do
  let start ← offset
  let code ← u1 "constant pool tag"
  decodeTagged index count start code

/--
The constants for a number of slots that are left, the first of which has the number `index`.
Each constant takes at least one slot.
-/
def decodeMany (index : Nat) : Nat → Decoder (List Entry)
  | 0 => return []
  | left + 1 => do
    let e ← decode index (index + left + 1)
    return e :: (← decodeMany (index + e.width) (left + 1 - e.width))
termination_by left => left
decreasing_by
  have := e.width_pos
  omega

end Entry

namespace ConstantPool

/-- Checks that a constant may refer to the constant of a number. -/
def expect (pool : ConstantPool) (owner : Nat) (index : UInt16) (expected : List Tag) :
    Except Fault Unit := do
  let e ← pool.entry index.toNat
  if e.tag ∈ expected then return ()
  else throw (.unplaced (.wrongReference owner index.toNat expected e.tag))

/-- Checks all that a constant refers to. -/
def checkEntry (pool : ConstantPool) (owner : Nat) : Entry → Except Fault Unit
  | .utf8 _ | .integer _ | .float _ | .long _ | .double _ => return ()
  | .classRef name | .string name | .methodType name | .moduleRef name | .packageRef name =>
    pool.expect owner name [.utf8]
  | .nameAndType name descriptor => do
    pool.expect owner name [.utf8]
    pool.expect owner descriptor [.utf8]
  | .fieldRef cls member | .methodRef cls member | .interfaceMethodRef cls member => do
    pool.expect owner cls [.classRef]
    pool.expect owner member [.nameAndType]
  | .dynamic _ member | .invokeDynamic _ member => pool.expect owner member [.nameAndType]
  | .methodHandle kind reference =>
    if 1 ≤ kind && kind ≤ 9 then pool.expect owner reference Tag.memberRefs
    else throw (.unplaced (.badReferenceKind owner kind))

/-- Checks what the constants refer to, in the order of their numbers. -/
def check (pool : ConstantPool) : Except Fault Unit :=
  pool.entries.forM fun (index, e) => pool.checkEntry index e

/-- A constant pool with its count in front. -/
def decode : Decoder ConstantPool := do
  let start ← offset
  let count ← u2 "constant_pool_count"
  if count = 0 then failAt start .emptyPool
  else
    let pool := ofEntries (← Entry.decodeMany 1 (count.toNat - 1))
    ofResult pool.check
    return pool

end ConstantPool

end ClassFormat
