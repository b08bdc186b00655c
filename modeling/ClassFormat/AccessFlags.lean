/-
Access flags of classes, fields and methods.

A flag is one bit.  Some bits mean one thing on a class and another on a field or a method; each
meaning has a constructor of its own.  The flags of a class file are sixteen bits, but nothing
here depends on that: a flag word is any integer, in two's complement without a limit, so a
negative word has all high bits set.
-/

namespace ClassFormat

/-- The meanings of the bits of a flag word. -/
inductive AccessFlag where
  | accPublic
  | accPrivate
  | accProtected
  | accStatic
  | accFinal
  | accSuper
  | accSynchronized
  | accVolatile
  | accBridge
  | accTransient
  | accVarargs
  | accNative
  | accInterface
  | accAbstract
  | accStrict
  | accSynthetic
  | accAnnotationType
  | accEnum
  | accModule
  | accMandated
  deriving DecidableEq, Repr

namespace AccessFlag

/-- The position of the bit. -/
def bit : AccessFlag → Nat
  | accPublic => 0
  | accPrivate => 1
  | accProtected => 2
  | accStatic => 3
  | accFinal => 4
  | accSuper | accSynchronized => 5
  | accVolatile | accBridge => 6
  | accTransient | accVarargs => 7
  | accNative => 8
  | accInterface => 9
  | accAbstract => 10
  | accStrict => 11
  | accSynthetic => 12
  | accAnnotationType => 13
  | accEnum => 14
  | accModule | accMandated => 15

/--
For each bit, lowest first, the name under which it is listed when the kind of its owner does
not matter.
-/
def listed : List (AccessFlag × String) :=
  [(accPublic, "PUBLIC"), (accPrivate, "PRIVATE"), (accProtected, "PROTECTED"),
   (accStatic, "STATIC"), (accFinal, "FINAL"), (accSuper, "SUPER"), (accVolatile, "VOLATILE"),
   (accTransient, "TRANSIENT"), (accNative, "NATIVE"), (accInterface, "INTERFACE"),
   (accAbstract, "ABSTRACT"), (accStrict, "STRICT"), (accSynthetic, "SYNTHETIC"),
   (accAnnotationType, "ANNOTATION"), (accEnum, "ENUM"), (accModule, "MODULE")]

end AccessFlag

/-- A word of access flags. -/
structure AccessFlags where
  word : Int
  deriving DecidableEq, Repr

namespace AccessFlags

open AccessFlag

/-- The flags of sixteen bits of a class file. -/
def ofUInt16 (word : UInt16) : AccessFlags :=
  ⟨Int.ofNat word.toNat⟩

/-- Whether a flag is set. -/
def has (flags : AccessFlags) (flag : AccessFlag) : Bool :=
  flags.word >>> flag.bit % 2 == 1

/-- Whether the word and the mask have a set bit in common. -/
def meets (flags : AccessFlags) (mask : Int) : Bool :=
  match flags.word, mask with
  | .ofNat a, .ofNat b => a &&& b != 0
  | .ofNat a, .negSucc b => a &&& b != a
  | .negSucc a, .ofNat b => b &&& a != b
  | .negSucc _, .negSucc _ => true

/--
The names of the flags that are set, lowest bit first.  A negative word has no end of set bits
and therefore no such list.
-/
def names? (flags : AccessFlags) : Option (List String) :=
  if flags.word < 0 then none
  else some ((listed.filter fun (flag, _) => flags.has flag).map (·.2))

/-- The keyword, if it applies. -/
def keywordIf (applies : Bool) (keyword : String) : List String :=
  if applies then [keyword] else []

/-- The keyword for who may see the owner.  The widest of several that are set counts. -/
def visibility (flags : AccessFlags) : List String :=
  if flags.has accPublic then ["public"]
  else if flags.has accProtected then ["protected"]
  else keywordIf (flags.has accPrivate) "private"

/--
The modifiers of a class in the order of source code.  An interface is abstract without
saying so.
-/
def classModifiers (flags : AccessFlags) : List String :=
  flags.visibility
    ++ keywordIf (flags.has accAbstract && !flags.has accInterface) "abstract"
    ++ keywordIf (flags.has accStatic) "static"
    ++ keywordIf (flags.has accFinal) "final"
    ++ keywordIf (flags.has accStrict) "strictfp"

/-- The modifiers of a field in the order of source code. -/
def fieldModifiers (flags : AccessFlags) : List String :=
  flags.visibility
    ++ keywordIf (flags.has accStatic) "static"
    ++ keywordIf (flags.has accFinal) "final"
    ++ keywordIf (flags.has accTransient) "transient"
    ++ keywordIf (flags.has accVolatile) "volatile"

/-- The modifiers of a method in the order of source code. -/
def methodModifiers (flags : AccessFlags) : List String :=
  flags.visibility
    ++ keywordIf (flags.has accAbstract) "abstract"
    ++ keywordIf (flags.has accStatic) "static"
    ++ keywordIf (flags.has accFinal) "final"
    ++ keywordIf (flags.has accSynchronized) "synchronized"
    ++ keywordIf (flags.has accNative) "native"
    ++ keywordIf (flags.has accStrict) "strictfp"

end AccessFlags

end ClassFormat
