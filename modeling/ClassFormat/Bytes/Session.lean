/-
Reading an input in single steps.

A session is a run of steps over one input.  A step that fails leaves the cursor where it was, and
the session goes on with the next one.
-/
import ClassFormat.Bytes.Decoder

namespace ClassFormat

/-- One step: what to read, and the item that a fault names. -/
inductive ReadStep where
  | u1 (item : String)
  | u2 (item : String)
  | u4 (item : String)
  | i4 (item : String)
  | i8 (item : String)
  | f4 (item : String)
  | f8 (item : String)
  | bytes (size : Nat) (item : String)
  | skip (size : Nat) (item : String)
  | atEnd
  deriving DecidableEq, Repr

/-- What a step reads. -/
inductive Reading where
  | integer (value : Int)
  | float (value : Binary64)
  | bytes (value : List UInt8)
  | nothing
  | truth (value : Bool)
  deriving DecidableEq, Repr

namespace ReadStep

/-- How many bytes the step needs. -/
def size : ReadStep → Nat
  | u1 _ => 1
  | u2 _ => 2
  | u4 _ | i4 _ | f4 _ => 4
  | i8 _ | f8 _ => 8
  | bytes n _ | skip n _ => n
  | atEnd => 0

/-- Performs the step. -/
def run : ReadStep → Decoder Reading
  | u1 item => do return .integer (.ofNat (← Decoder.u1 item).toNat)
  | u2 item => do return .integer (.ofNat (← Decoder.u2 item).toNat)
  | u4 item => do return .integer (.ofNat (← Decoder.u4 item).toNat)
  | i4 item => do return .integer (← Decoder.i4 item).toInt
  | i8 item => do return .integer (← Decoder.i8 item).toInt
  | f4 item => do return .float (← Decoder.f4 item).widen
  | f8 item => do return .float (← Decoder.f8 item)
  | bytes n item => do return .bytes (← Decoder.take n item)
  | skip n item => do
    Decoder.skip n item
    return .nothing
  | atEnd => do return .truth (← get).atEnd

end ReadStep

/-- What a step gave, and where the cursor stood afterwards. -/
structure StepRecord where
  outcome : Except Fault Reading
  cursor : Cursor

/-- The records of all steps, performed one after the other. -/
def session : List ReadStep → Cursor → List StepRecord
  | [], _ => []
  | step :: steps, c =>
    match step.run c with
    | .ok r c' => ⟨.ok r, c'⟩ :: session steps c'
    | .error e c' => ⟨.error e, c'⟩ :: session steps c'

end ClassFormat
