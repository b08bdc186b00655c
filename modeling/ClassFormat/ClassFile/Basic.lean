/-
Class files.

A `ClassFile` is what a class file says: its constant pool, its place among other classes, its
members and its attributes.  `ClassFile.ofBytes` reads one.  The parts follow each other without
gaps, and unless the policy allows for it, nothing may come after them.
-/
import ClassFormat.ConstantPool.Decode
import ClassFormat.Member
import ClassFormat.ReadPolicy

namespace ClassFormat

open Decoder

/-- Irregularities that do not keep a class from being read. -/
inductive Anomaly where
  /-- A class other than the root class has no superclass. -/
  | noSuperclass (name : Text)
  deriving DecidableEq

/-- The irregularity in words. -/
def Anomaly.message : Anomaly → Text
  | noSuperclass name => .concat ["Class ", name, " has no super class"]

/--
A class as its file describes it.  Classes are named by their indices in the constant pool;
index 0 in place of the superclass stands for none.
-/
structure ClassFile where
  pool : ConstantPool
  accessFlags : UInt16
  thisClass : UInt16
  superclass : UInt16
  anomalies : List Anomaly
  interfaces : List UInt16
  fields : List Field
  methods : List Method
  attributes : AttributeSet

namespace ClassFile

/-- The first four bytes of every class file. -/
def magic : UInt32 := 0xCAFEBABE

/-- The class at the root of the class hierarchy. -/
def rootName : Text := "java/lang/Object"

/-- The magic number and a version that the policy accepts. -/
def decodeHeader (policy : ReadPolicy) : Decoder Unit := do
  let start ← offset
  let found ← u4 "magic"
  if found ≠ magic then failAt start (.badMagic found)
  else
    let minor ← u2 "minor_version"
    let versionAt ← offset
    let major ← u2 "major_version"
    if policy.accepts (Int.ofNat major.toNat) then return ()
    else
      failAt versionAt
        (.unsupportedVersion major minor policy.lowestMajor policy.highestMajor)

/-- What is irregular about the superclass.  The root class and modules have none by right. -/
def superclassAnomalies (pool : ConstantPool) (accessFlags thisClass : UInt16) :
    Except Fault (List Anomaly) := do
  let name ← pool.className thisClass.toNat
  if name = rootName || (AccessFlags.ofUInt16 accessFlags).has .accModule then return []
  else return [.noSuperclass name]

/-- Checks that an index refers to a class. -/
def requireClass (pool : ConstantPool) (index : UInt16) : Decoder Unit := do
  let _ ← ofResult (pool.get index.toNat [.classRef])

/-- Checks the index of the superclass, and says what is irregular about it. -/
def checkSuperclass (pool : ConstantPool) (accessFlags thisClass superclass : UInt16) :
    Decoder (List Anomaly) :=
  if superclass = 0 then ofResult (superclassAnomalies pool accessFlags thisClass)
  else do
    requireClass pool superclass
    return []

/-- A class file up to the end of its attributes. -/
def decodeBody (policy : ReadPolicy) : Decoder ClassFile := do
  decodeHeader policy
  let pool ← ConstantPool.decode
  let accessFlags ← u2 "access_flags"
  let thisClass ← u2 "this_class"
  let superclass ← u2 "super_class"
  requireClass pool thisClass
  let anomalies ← checkSuperclass pool accessFlags thisClass superclass
  let interfaceCount ← u2 "interfaces_count"
  let interfaces ← times interfaceCount.toNat (u2 "interface index")
  interfaces.forM (requireClass pool)
  let fieldCount ← u2 "fields_count"
  let fields ← times fieldCount.toNat (Field.decode pool)
  let methodCount ← u2 "methods_count"
  let methods ← times methodCount.toNat (Method.decode pool)
  let attributes ← AttributeSet.decode pool .ofClass
  return ⟨pool, accessFlags, thisClass, superclass, anomalies, interfaces, fields, methods,
    attributes⟩

/-- A class file and nothing after it, unless the policy allows for more. -/
def decode (policy : ReadPolicy) : Decoder ClassFile := do
  let c ← decodeBody policy
  let left ← remaining
  if left = 0 || policy.allowTrailing then return c
  else failHere (.trailingBytes left)

/-- The class that bytes describe. -/
def ofBytes (policy : ReadPolicy) (bytes : List UInt8) : Except Fault ClassFile :=
  match decode policy (.start bytes) with
  | .ok c _ => .ok c
  | .error e _ => .error e

end ClassFile

end ClassFormat
