/-
The constant pool: the table of literals and symbolic references of a class file.

Constants are numbered from 1.  A long or a double takes two numbers, the second of which names
nothing.  `ConstantPool.ofEntries` lays a list of constants out into slots accordingly, and slot 0
stays empty, so a constant stands in the slot of its number.

Look-ups take any integer and fail with a fault that says why.
-/
import ClassFormat.ConstantPool.Tag
import ClassFormat.Fault
import ClassFormat.FloatingPoint
import ClassFormat.Text.Basic

namespace ClassFormat

/-- A number as it is handed out, whatever the width in which it is stored. -/
inductive Number where
  | integer (value : Int)
  | float (value : Binary64)
  deriving DecidableEq

/--
A constant whose text, if it has one, is held as an `α`; references to other constants are
indices.
-/
inductive Constant (α : Type) where
  | utf8 (text : α)
  | integer (value : Int32)
  | float (value : Binary32)
  | long (value : Int64)
  | double (value : Binary64)
  | classRef (name : UInt16)
  | string (text : UInt16)
  | fieldRef (owner nameAndType : UInt16)
  | methodRef (owner nameAndType : UInt16)
  | interfaceMethodRef (owner nameAndType : UInt16)
  | nameAndType (name descriptor : UInt16)
  | methodHandle (kind : UInt8) (reference : UInt16)
  | methodType (descriptor : UInt16)
  | dynamic (bootstrap nameAndType : UInt16)
  | invokeDynamic (bootstrap nameAndType : UInt16)
  | moduleRef (name : UInt16)
  | packageRef (name : UInt16)
  deriving DecidableEq

/-- A constant as it stands in the pool. -/
abbrev Entry := Constant Text

namespace Constant

variable {α : Type}

/-- The kind of a constant. -/
def tag : Constant α → Tag
  | utf8 _ => .utf8
  | integer _ => .integer
  | float _ => .float
  | long _ => .long
  | double _ => .double
  | classRef _ => .classRef
  | string _ => .string
  | fieldRef .. => .fieldRef
  | methodRef .. => .methodRef
  | interfaceMethodRef .. => .interfaceMethodRef
  | nameAndType .. => .nameAndType
  | methodHandle .. => .methodHandle
  | methodType _ => .methodType
  | dynamic .. => .dynamic
  | invokeDynamic .. => .invokeDynamic
  | moduleRef _ => .moduleRef
  | packageRef _ => .packageRef

/-- How many slots a constant takes. -/
def width : Constant α → Nat
  | long _ | double _ => 2
  | _ => 1

theorem width_pos (e : Constant α) : 0 < e.width := by
  cases e <;> simp [width]

/-- The number that a constant stands for, if it stands for one. -/
def number? : Constant α → Option Number
  | integer v => some (.integer v.toInt)
  | float v => some (.float v.widen)
  | long v => some (.integer v.toInt)
  | double v => some (.float v)
  | _ => none

/-- The slots of a constant: the constant itself, and an empty one if it takes two. -/
def slots (e : Constant α) : List (Option (Constant α)) :=
  some e :: List.replicate (e.width - 1) none

end Constant

/-- The value of a constant field or of an annotation element. -/
inductive Literal where
  | integer (value : Int32)
  | float (value : Binary32)
  | long (value : Int64)
  | double (value : Binary64)
  | text (value : Text)
  deriving DecidableEq

/-- The number that the value is, unless it is a text. -/
def Literal.number? : Literal → Option Number
  | .integer v => some (.integer v.toInt)
  | .float v => some (.float v.widen)
  | .long v => some (.integer v.toInt)
  | .double v => some (.float v)
  | .text _ => none

/-- The slots of a constant pool by their numbers, from 0. -/
structure ConstantPool where
  slots : List (Option Entry)
  deriving DecidableEq

namespace ConstantPool

/-- The pool that holds the given constants in order. -/
def ofEntries (es : List Entry) : ConstantPool :=
  ⟨none :: es.flatMap Constant.slots⟩

/-- One more than the highest number of a slot. -/
def count (pool : ConstantPool) : Nat :=
  pool.slots.length

/-- The constants with their numbers, in ascending order. -/
def entries (pool : ConstantPool) : List (Nat × Entry) :=
  pool.slots.zipIdx.filterMap fun (slot, i) => slot.map (i, ·)

/-- The constant of a number. -/
def entry (pool : ConstantPool) (index : Int) : Except Fault Entry :=
  if 0 < index && index < pool.count then
    match pool.slots[index.toNat]? with
    | some (some e) => .ok e
    | _ => .error (.unplaced (.secondSlot index))
  else .error (.unplaced (.indexOutOfRange index (pool.count - 1)))

/-- The fault of a constant that is not of the kind that is needed. -/
def mismatch {α : Type} (index : Int) (expected : List Tag) (found : Entry) : Except Fault α :=
  .error (.unplaced (.wrongKind index expected found.tag))

/--
The constant of a number, which must be of one of the given kinds; if none is given, any kind
will do.
-/
def get (pool : ConstantPool) (index : Int) (expected : List Tag) : Except Fault Entry := do
  let e ← pool.entry index
  if expected.isEmpty || e.tag ∈ expected then return e
  else mismatch index expected e

/-- The text of a number. -/
def utf8 (pool : ConstantPool) (index : Int) : Except Fault Text := do
  match ← pool.entry index with
  | .utf8 t => return t
  | e => mismatch index [.utf8] e

/-- The name of the class that a number refers to, with slashes between its parts. -/
def className (pool : ConstantPool) (index : Int) : Except Fault Text := do
  match ← pool.entry index with
  | .classRef name => pool.utf8 name.toNat
  | e => mismatch index [.classRef] e

/-- The name and the descriptor that a number refers to. -/
def nameAndType (pool : ConstantPool) (index : Int) : Except Fault (Text × Text) := do
  match ← pool.entry index with
  | .nameAndType name descriptor =>
    let n ← pool.utf8 name.toNat
    return (n, ← pool.utf8 descriptor.toNat)
  | e => mismatch index [.nameAndType] e

/-- The value of a number or a string constant. -/
def literal (pool : ConstantPool) (index : Int) : Except Fault Literal := do
  match ← pool.entry index with
  | .integer v => return .integer v
  | .float v => return .float v
  | .long v => return .long v
  | .double v => return .double v
  | .string t => return .text (← pool.utf8 t.toNat)
  | e => mismatch index Tag.loadable e

end ConstantPool

end ClassFormat
