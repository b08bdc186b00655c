/-
Integers as people write them.

White space may stand on either side.  An integer has at most one sign and then decimal digits of
any script, where a single underscore may stand between two digits.

The reader takes the longest run of digits and underscores and judges the run before it looks at
what follows.  So a well-formed run of too many digits is refused for its length, whatever stands
behind it.
-/
import ClassFormat.Text.Blank
import ClassFormat.Text.DecimalDigit
import ClassFormat.Text.Quoted

namespace ClassFormat

/-- Why a text is not read as an integer. -/
inductive IntegerFault where
  /-- The text is not the writing of an integer. -/
  | malformed
  /-- The digits, leading zeros among them, are more than the limit allows. -/
  | tooLong (digits limit : Nat)
  deriving DecidableEq, Repr

/-- Whether the code point may stand in the run of an integer's digits. -/
def CodePoint.isDigitOrUnderscore (p : CodePoint) : Bool :=
  p = .scalar '_' || p.digitValue?.isSome

namespace Text

/--
Whether a run of digits and underscores ends in a digit and has a digit right before each
underscore.  The flag says whether a digit stands right before the run.
-/
def isGrouped (afterDigit : Bool) : Text → Bool
  | [] => afterDigit
  | p :: rest =>
    if p = .scalar '_' then afterDigit && isGrouped false rest else isGrouped true rest

/-- The values of the digits in a text. -/
def digitValues (t : Text) : List Nat :=
  t.filterMap CodePoint.digitValue?

/-- The number that decimal digits stand for. -/
def numberOf (digits : List Nat) : Nat :=
  digits.foldl (fun value digit => value * 10 + digit) 0

/-- The number that a text stands for, without a sign and at most `limit` digits long. -/
def toNat (limit : Nat) (t : Text) : Except IntegerFault Nat :=
  let run := t.takeWhile CodePoint.isDigitOrUnderscore
  let digits := digitValues run
  if !isGrouped false run then .error .malformed
  else if limit < digits.length then .error (.tooLong digits.length limit)
  else if !(t.drop run.length).all CodePoint.isWhiteSpace then .error .malformed
  else .ok (numberOf digits)

/-- The integer that a text stands for, at most `limit` digits long. -/
def toInt (limit : Nat) (t : Text) : Except IntegerFault Int :=
  match t.dropWhile CodePoint.isWhiteSpace with
  | .scalar '+' :: rest => (toNat limit rest).map Int.ofNat
  | .scalar '-' :: rest => (toNat limit rest).map fun n => - Int.ofNat n
  | rest => (toNat limit rest).map Int.ofNat

end Text

/-- A text that stands where an integer is expected, and why it is not read as one. -/
structure BadInteger where
  written : Text
  fault : IntegerFault
  deriving DecidableEq, Repr

namespace BadInteger

/-- The longest stretch of the quoted text that a message shows. -/
def shownLength : Nat := 200

/-- The fault in words. -/
def message (bad : BadInteger) : Text :=
  match bad.fault with
  | .malformed =>
    "invalid literal for int() with base 10: " ++ bad.written.quoted.take shownLength
  | .tooLong digits limit =>
    .concat ["Exceeds the limit (", .ofNat limit, " digits) for integer string conversion: ",
      "value has ", .ofNat digits, " digits; use sys.set_int_max_str_digits() to increase ",
      "the limit"]

end BadInteger

namespace Text

/-- The most digits that an integer may be written with. -/
def maxDigits : Nat := 4300

/-- The integer that a text stands for. -/
def readInteger (t : Text) : Except BadInteger Int :=
  (t.toInt maxDigits).mapError fun fault => ⟨t, fault⟩

end Text

end ClassFormat
