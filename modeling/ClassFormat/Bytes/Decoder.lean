/-
Decoding bytes from front to back.

A `Cursor` is the part of the input that is still to be read, and its offset from the start.  A
`Decoder` moves the cursor on and gives a value, or stops with a fault; the cursor shows then how
far it came.  All reads go through `take`, which moves by exactly the number of bytes asked for or,
if there are not so many, does not move at all.

Some bytes are passed over without being interpreted.  The cursor remembers where they were, so
that one can tell which part of the input had no say in the outcome.
-/
import ClassFormat.Fault
import ClassFormat.FloatingPoint

namespace ClassFormat

/-- A stretch of the input. -/
structure Span where
  start : Nat
  size : Nat
  deriving DecidableEq, Repr

/--
What is left of the input, how much came before, and which stretches of that were not
interpreted, the latest first.
-/
structure Cursor where
  offset : Nat
  rest : List UInt8
  passed : List Span
  deriving DecidableEq, Repr

namespace Cursor

/-- The start of an input. -/
def start (bytes : List UInt8) : Cursor :=
  ⟨0, bytes, []⟩

/-- How many bytes are left. -/
def remaining (c : Cursor) : Nat :=
  c.rest.length

/-- Whether no byte is left. -/
def atEnd (c : Cursor) : Bool :=
  c.rest.isEmpty

end Cursor

/-- Reads a value at a cursor. -/
abbrev Decoder (α : Type) := EStateM Fault Cursor α

/-- The number that bytes stand for, the most significant one first. -/
def bigEndian (bytes : List UInt8) : Nat :=
  bytes.foldl (fun n b => n * 256 + b.toNat) 0

namespace Decoder

/-- The offset of the cursor. -/
def offset : Decoder Nat := do
  return (← get).offset

/-- How many bytes are left. -/
def remaining : Decoder Nat := do
  return (← get).remaining

/-- Stops with a fault that belongs to the given offset. -/
def failAt {α : Type} (offset : Nat) (cause : Cause) : Decoder α :=
  throw (.located cause offset)

/-- Stops with a fault that belongs to the offset of the cursor. -/
def failHere {α : Type} (cause : Cause) : Decoder α := do
  failAt (← offset) cause

/-- Goes on with a value found elsewhere, or stops with the fault found there. -/
def ofResult {α : Type} : Except Fault α → Decoder α
  | .ok a => pure a
  | .error e => throw e

/-- The next `size` bytes, which are part of the named item. -/
def take (size : Nat) (item : String) : Decoder (List UInt8) := fun c =>
  let taken := c.rest.take size
  if taken.length = size then
    .ok taken { c with offset := c.offset + size, rest := c.rest.drop size }
  else .error (.located (.endOfInput size item taken.length) c.offset) c

/-- The next `size` bytes, of the named item, which nobody is going to interpret. -/
def pass (size : Nat) (item : String) : Decoder (List UInt8) := do
  let start ← offset
  let bytes ← take size item
  modify fun c => { c with passed := ⟨start, size⟩ :: c.passed }
  return bytes

/-- Moves on by `size` bytes of the named item. -/
def skip (size : Nat) (item : String) : Decoder Unit := do
  let _ ← pass size item

/-- An unsigned number of one byte. -/
def u1 (item : String := "u1") : Decoder UInt8 := do
  return .ofNat (bigEndian (← take 1 item))

/-- An unsigned number of two bytes. -/
def u2 (item : String := "u2") : Decoder UInt16 := do
  return .ofNat (bigEndian (← take 2 item))

/-- An unsigned number of four bytes. -/
def u4 (item : String := "u4") : Decoder UInt32 := do
  return .ofNat (bigEndian (← take 4 item))

/-- A signed number of four bytes. -/
def i4 (item : String := "int") : Decoder Int32 := do
  return .ofNat (bigEndian (← take 4 item))

/-- A signed number of eight bytes. -/
def i8 (item : String := "long") : Decoder Int64 := do
  return .ofNat (bigEndian (← take 8 item))

/-- A floating-point number of four bytes. -/
def f4 (item : String := "float") : Decoder Binary32 := do
  return ⟨.ofNat (bigEndian (← take 4 item))⟩

/-- A floating-point number of eight bytes. -/
def f8 (item : String := "double") : Decoder Binary64 := do
  return ⟨.ofNat (bigEndian (← take 8 item))⟩

/-- The same decoder a number of times in a row. -/
def times {α : Type} : Nat → Decoder α → Decoder (List α)
  | 0, _ => return []
  | n + 1, item => do return (← item) :: (← times n item)

end Decoder

end ClassFormat
