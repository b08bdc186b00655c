/-
Runs of operations on one class path.

An operation that fails leaves the class path as it was, and the run goes on.
-/
import ClassFormat.ClassPath.Basic

namespace ClassFormat

/-- What can be asked of a class path.  A `block` closes the class path at its end. -/
inductive Operation where
  | add (path : Path)
  | find (name : Text)
  | names (package : Option Text)
  | close
  | block (operations : List Operation)

/--
What an operation gives: how many sources there are, a class with its position among the
loaded ones, the names of classes, or the answers to the operations of a block.
-/
inductive Answer where
  | sources (count : Nat)
  | refused (fault : SourceFault)
  | found (result : Option (Nat × ClassFile))
  | unreadable (fault : Fault)
  | listed (names : List Text)
  | block (answers : List Answer)

mutual

/-- Performs an operation. -/
def Operation.run (disk : Disk) : Operation → ClassPath → Answer × ClassPath
  | .add path, cp =>
    match cp.addPath disk path with
    | .ok cp' => (.sources cp'.sources.length, cp')
    | .error e => (.refused e, cp)
  | .find name, cp =>
    match cp.find disk name with
    | .ok (result, cp') => (.found result, cp')
    | .error e => (.unreadable e, cp)
  | .names package, cp => (.listed (cp.names disk package), cp)
  | .close, cp => (.sources cp.close.sources.length, cp.close)
  | .block operations, cp =>
    let (answers, cp') := Operation.runAll disk operations cp
    (.block answers, cp'.close)

/-- Performs operations one after the other. -/
def Operation.runAll (disk : Disk) : List Operation → ClassPath → List Answer × ClassPath
  | [], cp => ([], cp)
  | operation :: rest, cp =>
    let (answer, cp') := operation.run disk cp
    let (answers, cp'') := Operation.runAll disk rest cp'
    (answer :: answers, cp'')

end

end ClassFormat
