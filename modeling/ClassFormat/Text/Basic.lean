/-
Text as class files hold it.

The strings of a class file are sequences of UTF-16 units in which a surrogate may stand
alone, so they are not always sequences of Unicode scalar values.  A `CodePoint` is therefore
either a scalar value or a surrogate on its own, and a `Text` is a list of code points.  The
numbering `CodePoint.toNat` identifies the two kinds with the code points below `0x110000`;
`CodePoint.ofNat?_toNat` says that nothing is lost by it.
-/

namespace ClassFormat

/-- A Unicode scalar value, or one half of a surrogate pair whose other half is missing. -/
inductive CodePoint where
  | scalar (c : Char)
  | surrogate (index : Fin 0x800)
  deriving DecidableEq, Repr

namespace CodePoint

instance : Inhabited CodePoint := ⟨.scalar ' '⟩

instance : Coe Char CodePoint := ⟨.scalar⟩

/-- The number of the code point; the surrogates take the gap that the scalar values leave. -/
def toNat : CodePoint → Nat
  | scalar c => c.toNat
  | surrogate i => 0xD800 + i.val

/-- The code point of a given number, if the number is below `0x110000`. -/
def ofNat? (n : Nat) : Option CodePoint :=
  if n.isValidChar then some (scalar (Char.ofNat n))
  else if h : 0xD800 ≤ n ∧ n < 0xE000 then some (surrogate ⟨n - 0xD800, by omega⟩)
  else none

theorem ofNat?_toNat (p : CodePoint) : ofNat? p.toNat = some p := by
  cases p with
  | scalar c =>
    have h : Nat.isValidChar c.toNat := c.valid
    rw [toNat, ofNat?, if_pos h, Char.ofNat_toNat]
  | surrogate i =>
    have h : ¬ Nat.isValidChar (0xD800 + i.val) := by
      simp only [Nat.isValidChar]
      omega
    have h' : 0xD800 ≤ 0xD800 + i.val ∧ 0xD800 + i.val < 0xE000 := by omega
    rw [toNat, ofNat?, if_neg h, dif_pos h']
    have e : 0xD800 + i.val - 0xD800 = i.val := Nat.add_sub_cancel_left ..
    simp only [e]

end CodePoint

/-- A string of a class file. -/
abbrev Text := List CodePoint

namespace Text

/-- Text without lone surrogates, from a string. -/
def ofString (s : String) : Text :=
  s.toList.map .scalar

instance : Coe String Text := ⟨ofString⟩

/-- The texts one after the other. -/
def concat (texts : List Text) : Text :=
  texts.flatten

/-- The texts in order, with a separator between neighbours. -/
def join (separator : Text) (texts : List Text) : Text :=
  separator.intercalate texts

/--
Cuts at the last occurrence of a separator: what stands before it and what stands after.
Without a separator all of the text stands after.
-/
def splitLast (separator : CodePoint) (t : Text) : Text × Text :=
  let reversed := t.reverse
  let after := reversed.takeWhile (· != separator)
  let before := (reversed.dropWhile (· != separator)).drop 1
  (before.reverse, after.reverse)

/-- Every occurrence of one code point replaced by another. -/
def replace (old new : CodePoint) (t : Text) : Text :=
  t.map fun p => if p = old then new else p

/-- Whether the text ends in the given ending. -/
def endsIn (t ending : Text) : Bool :=
  ending.isSuffixOf t

/-- The text without its last `n` code points. -/
def dropEnd (n : Nat) (t : Text) : Text :=
  t.take (t.length - n)

/-- Lexicographic order by the numbers of the code points. -/
def le : Text → Text → Bool
  | [], _ => true
  | _ :: _, [] => false
  | p :: r, q :: s => p.toNat < q.toNat || p.toNat == q.toNat && le r s

end Text

end ClassFormat
