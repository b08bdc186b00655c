/-
Queries on a class.

Names come in two forms: the internal form of the class file, with slashes between the parts of a
package, and the form with periods.  Members are found by position, counted from 0 in the order of
the file.  Every query resolves indices in the constant pool of the class, and none of them fails
on a class that was read.
-/
import ClassFormat.ClassFile.Basic

namespace ClassFormat.ClassFile

/-- The access flags of the class. -/
def flags (c : ClassFile) : AccessFlags :=
  .ofUInt16 c.accessFlags

/-- Whether the class is marked as deprecated. -/
def isDeprecated (c : ClassFile) : Bool :=
  c.attributes.deprecated

/-- Whether the class is public. -/
def isPublic (c : ClassFile) : Bool :=
  c.flags.has .accPublic

/-- Whether the class is final. -/
def isFinal (c : ClassFile) : Bool :=
  c.flags.has .accFinal

/-- Whether the class is an interface. -/
def isInterface (c : ClassFile) : Bool :=
  c.flags.has .accInterface

/-- Whether the class is abstract. -/
def isAbstract (c : ClassFile) : Bool :=
  c.flags.has .accAbstract

/-- Whether the class is the type of annotations. -/
def isAnnotationType (c : ClassFile) : Bool :=
  c.flags.has .accAnnotationType

/-- Whether the class is an enumeration. -/
def isEnum (c : ClassFile) : Bool :=
  c.flags.has .accEnum

/-- Whether the class does not stand in the source code. -/
def isSynthetic (c : ClassFile) : Bool :=
  c.flags.has .accSynthetic

/-- Whether the class file describes a module. -/
def isModule (c : ClassFile) : Bool :=
  c.flags.has .accModule

/-- The modifiers of the class. -/
def modifiers (c : ClassFile) : List String :=
  c.flags.classModifiers

/-! ### Names -/

/-- The internal name of the class. -/
def name (c : ClassFile) : Except Fault Text :=
  c.pool.className c.thisClass.toNat

/-- A name with periods in place of slashes. -/
def dotted (name : Text) : Text :=
  name.replace '/' '.'

/-- The name of the class with periods. -/
def javaName (c : ClassFile) : Except Fault Text := do
  return dotted (← c.name)

/-- The name of the package with periods, empty if there is none. -/
def packageName (c : ClassFile) : Except Fault Text := do
  return dotted ((← c.name).splitLast '/').1

/-- The table of nested classes. -/
def innerClasses (c : ClassFile) : List InnerClass :=
  match c.attributes.first? Payload.innerClasses? with
  | some a => a.payload
  | none => []

/--
The name without a package.  A nested class has the name under which the table of nested
classes lists it, unless that is empty.
-/
def simpleName (c : ClassFile) : Except Fault Text := do
  let name ← c.name
  let listed := c.innerClasses.findSome? fun entry =>
    if entry.inner = name then entry.name.filter fun n => !n.isEmpty else none
  match listed with
  | some n => return n
  | none => return (name.splitLast '/').2

/-- The internal name of the superclass, if there is one. -/
def superclassName (c : ClassFile) : Except Fault (Option Text) :=
  if c.superclass = 0 then return none
  else do return some (← c.pool.className c.superclass.toNat)

/-- The internal names of the interfaces. -/
def interfaceNames (c : ClassFile) : Except Fault (List Text) :=
  c.interfaces.mapM fun i => c.pool.className i.toNat

/-- The class in a few words. -/
def summary (c : ClassFile) : Except Fault Text := do
  return .concat ["<ClassFile ", ← c.name, ">"]

/-! ### Attributes -/

/-- The name of the source file, if it is known. -/
def sourceFile (c : ClassFile) : Except Fault (Option Text) :=
  (c.attributes.first? Payload.sourceFile?).mapM fun a => c.pool.utf8 a.payload.toNat

/-- The text of the generic signature, if there is one. -/
def signature (c : ClassFile) : Except Fault (Option Text) :=
  c.attributes.signature c.pool

/-- The generic declaration, if there is one. -/
def genericSignature (c : ClassFile) : Except Fault (Option ClassSignature) := do
  (← c.signature).mapM readClassSignature

/-! ### Members -/

/-- The position of the first field of a name. -/
def fieldNamed? (c : ClassFile) (name : Text) : Except Fault (Option Nat) := do
  let names ← c.fields.mapM fun f => f.name c.pool
  return names.findIdx? (· = name)

/-- The positions of all methods of a name. -/
def methodsNamed (c : ClassFile) (name : Text) : Except Fault (List Nat) := do
  let names ← c.methods.mapM fun m => m.name c.pool
  return (names.zipIdx.filter (·.1 = name)).map (·.2)

/-- The position of the first method of a name and a descriptor. -/
def methodNamed? (c : ClassFile) (name descriptor : Text) : Except Fault (Option Nat) := do
  let found ← c.methods.mapM fun m => return (← m.name c.pool, ← m.descriptor c.pool)
  return found.findIdx? (· = (name, descriptor))

/-- The positions of the constructors. -/
def constructors (c : ClassFile) : Except Fault (List Nat) :=
  c.methodsNamed Method.constructorName

/-- The names of the fields and then of the methods that are marked as deprecated. -/
def deprecatedMembers (c : ClassFile) : Except Fault (List Text) :=
  let members := c.fields.map (·.toMember) ++ c.methods.map (·.toMember)
  (members.filter Member.isDeprecated).mapM fun m => m.name c.pool

/--
A method with its parameters, as a list of choices would show it.  Constructors go by the
simple name of the class.
-/
def displayMethod (c : ClassFile) (m : Method) (qualified : Bool) : Except Fault Text := do
  let name ← m.name c.pool
  let shown ← if name = Method.constructorName then c.simpleName else pure name
  m.display c.pool shown qualified

end ClassFormat.ClassFile
