/-
The kinds of constants.

Each kind of constant has a tag, whose code is the first byte of the constant in a class file.
The codes 2, 13 and 14 belong to no kind.
-/

namespace ClassFormat

/-- The kind of a constant. -/
inductive Tag where
  | utf8
  | integer
  | float
  | long
  | double
  | classRef
  | string
  | fieldRef
  | methodRef
  | interfaceMethodRef
  | nameAndType
  | methodHandle
  | methodType
  | dynamic
  | invokeDynamic
  | moduleRef
  | packageRef
  deriving DecidableEq, Repr

namespace Tag

/-- The byte that introduces a constant of the kind. -/
def code : Tag → UInt8
  | utf8 => 1
  | integer => 3
  | float => 4
  | long => 5
  | double => 6
  | classRef => 7
  | string => 8
  | fieldRef => 9
  | methodRef => 10
  | interfaceMethodRef => 11
  | nameAndType => 12
  | methodHandle => 15
  | methodType => 16
  | dynamic => 17
  | invokeDynamic => 18
  | moduleRef => 19
  | packageRef => 20

/-- The name of the kind, as messages show it. -/
def name : Tag → String
  | utf8 => "UTF8"
  | integer => "INTEGER"
  | float => "FLOAT"
  | long => "LONG"
  | double => "DOUBLE"
  | classRef => "CLASS"
  | string => "STRING"
  | fieldRef => "FIELDREF"
  | methodRef => "METHODREF"
  | interfaceMethodRef => "INTERFACE_METHODREF"
  | nameAndType => "NAME_AND_TYPE"
  | methodHandle => "METHOD_HANDLE"
  | methodType => "METHOD_TYPE"
  | dynamic => "DYNAMIC"
  | invokeDynamic => "INVOKE_DYNAMIC"
  | moduleRef => "MODULE"
  | packageRef => "PACKAGE"

/-- All kinds, in the order of their codes. -/
def all : List Tag :=
  [utf8, integer, float, long, double, classRef, string, fieldRef, methodRef, interfaceMethodRef,
   nameAndType, methodHandle, methodType, dynamic, invokeDynamic, moduleRef, packageRef]

/-- The kind that a byte introduces. -/
def ofCode? (code : UInt8) : Option Tag :=
  all.find? fun t => t.code = code

theorem ofCode?_code (t : Tag) : ofCode? t.code = some t := by
  cases t <;> decide

/-- The kinds that refer to a member of a class. -/
def memberRefs : List Tag :=
  [fieldRef, methodRef, interfaceMethodRef]

/-- The kinds of which a field can have a constant value. -/
def loadable : List Tag :=
  [integer, float, long, double, string]

end Tag

end ClassFormat
