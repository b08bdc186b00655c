/-
Numbers written out in digits.
-/
import ClassFormat.Text.Basic

namespace ClassFormat.Text

/-- A number in decimal digits. -/
def ofNat (n : Nat) : Text :=
  (Nat.toDigits 10 n).map .scalar

/-- An integer in decimal digits, after a minus sign if it is negative. -/
def ofInt : Int → Text
  | .ofNat n => ofNat n
  | .negSucc n => .scalar '-' :: ofNat (n + 1)

/-- A number in hexadecimal digits, in lower case and without leading zeros. -/
def hex (n : Nat) : Text :=
  (Nat.toDigits 16 n).map .scalar

/-- A number in hexadecimal digits, filled up with zeros to a given width. -/
def hexPadded (width n : Nat) : Text :=
  (hex n).leftpad width (.scalar '0')

end ClassFormat.Text
