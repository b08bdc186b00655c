/-
Steps for reading types.

A `Parser` takes what it reads off the front of a text and gives back the rest, or fails.
Repetition comes in two forms: `following` reads on as long as a given symbol is next, and
`untilSymbol` reads on until a given symbol is next.  Both go on only while the text gets
shorter, which every step of the grammar sees to.
-/
import ClassFormat.Signature.Basic

namespace ClassFormat

/-- Reads a value off the front of a text. -/
abbrev Parser (α : Type) := StateT Text Option α

namespace Parser

/-- Whether a code point can be part of a name. -/
def isNamePart (p : CodePoint) : Bool :=
  p ∉ ['.', ';', '[', '/', '<', '>', ':'].map CodePoint.scalar

/-- The next code point, which stays in place. -/
def peek : Parser (Option CodePoint) :=
  fun t => some (t.head?, t)

/-- The next code point. -/
def next : Parser CodePoint
  | [] => none
  | p :: rest => some (p, rest)

/-- The given symbol and nothing else. -/
def symbol (c : Char) : Parser Unit
  | [] => none
  | p :: rest => if p = .scalar c then some ((), rest) else none

/-- The longest run of code points that can be part of a name; there must be at least one. -/
def name : Parser Text := fun t =>
  match t.takeWhile isNamePart with
  | [] => none
  | n => some (n, t.dropWhile isNamePart)

/-- As many items as there are, each after the given symbol. -/
def following {α : Type} (lead : Char) (item : Parser α) : Parser (List α)
  | [] => some ([], [])
  | p :: rest =>
    if p = .scalar lead then
      match item rest with
      | none => none
      | some (a, rest') =>
        if rest'.length < rest.length + 1 then
          (following lead item rest').map fun (as, end') => (a :: as, end')
        else none
    else some ([], p :: rest)
termination_by t => t.length

/-- As many items as there are before the given symbol, and that symbol. -/
def untilSymbol {α : Type} (stop : Char) (item : Parser α) : Parser (List α)
  | [] => none
  | p :: rest =>
    if p = .scalar stop then some ([], rest)
    else
      match item (p :: rest) with
      | none => none
      | some (a, rest') =>
        if rest'.length < rest.length + 1 then
          (untilSymbol stop item rest').map fun (as, end') => (a :: as, end')
        else none
termination_by t => t.length

/-- What a parser reads from a text that it uses up. -/
def readAll {α : Type} (parser : Parser α) (t : Text) : Option α :=
  match parser t with
  | some (a, []) => some a
  | _ => none

end Parser

end ClassFormat
