/-
UTF-8.

A code point takes one to four bytes, and only its shortest form is accepted.  Standard UTF-8
has no form for surrogates; `SurrogatePolicy.allowed` admits the three-byte form that the same
pattern gives them (`ED A0 80` to `ED BF BF`).
-/
import ClassFormat.Text.Basic

namespace ClassFormat.Utf8

/-- Whether the three-byte form of a surrogate is accepted. -/
inductive SurrogatePolicy where
  | refused
  | allowed
  deriving DecidableEq, Repr

/-- The six bits that a continuation byte carries. -/
def continuation? (byte : UInt8) : Option Nat :=
  if 0x80 ≤ byte && byte < 0xC0 then some (byte.toNat - 0x80) else none

/--
The code point numbered `n`, unless a form shorter than the one read would have held it, or
it is a surrogate that the policy refuses.
-/
def codePoint? (policy : SurrogatePolicy) (least n : Nat) : Option CodePoint :=
  if n < least then none
  else
    match CodePoint.ofNat? n with
    | some (.surrogate i) => if policy = .allowed then some (.surrogate i) else none
    | other => other

/-- The text of a sequence of bytes, or `none` if some byte fits no form. -/
def decode (policy : SurrogatePolicy) : List UInt8 → Option Text
  | [] => some []
  | lead :: rest =>
    if lead < 0x80 then do
      return (← codePoint? policy 0 lead.toNat) :: (← decode policy rest)
    else if lead < 0xC0 then none
    else if lead < 0xE0 then
      match rest with
      | b :: rest => do
        let n := (lead.toNat - 0xC0) * 0x40 + (← continuation? b)
        return (← codePoint? policy 0x80 n) :: (← decode policy rest)
      | _ => none
    else if lead < 0xF0 then
      match rest with
      | b :: c :: rest => do
        let n := ((lead.toNat - 0xE0) * 0x40 + (← continuation? b)) * 0x40 + (← continuation? c)
        return (← codePoint? policy 0x800 n) :: (← decode policy rest)
      | _ => none
    else if lead < 0xF8 then
      match rest with
      | b :: c :: d :: rest => do
        let n := (((lead.toNat - 0xF0) * 0x40 + (← continuation? b)) * 0x40
          + (← continuation? c)) * 0x40 + (← continuation? d)
        return (← codePoint? policy 0x10000 n) :: (← decode policy rest)
      | _ => none
    else none

end ClassFormat.Utf8
