/-
What a reader accepts beyond the format itself: a range of major versions, and whether bytes may
follow the class.

A policy can be made from settings that people write as text.  A setting that is absent, or blank
where a number is expected, leaves the standard in place.
-/
import ClassFormat.Text.Integer

namespace ClassFormat

/--
The accepted major versions, and whether bytes after the class are tolerated.  The standard
range begins with the first released version.
-/
structure ReadPolicy where
  lowestMajor : Int := 45
  highestMajor : Int := 69
  allowTrailing : Bool := false
  deriving DecidableEq, Repr

namespace ReadPolicy

/-- The policy without any settings. -/
def standard : ReadPolicy := {}

/-- The number that a setting gives. -/
def integerSetting (written : Option Text) (standard : Int) : Except BadInteger Int :=
  match written with
  | none => .ok standard
  | some t =>
    if t.all CodePoint.isBlank then .ok standard else t.readInteger

/-- The lower-case form of an ASCII letter; other code points stay. -/
def lowerAscii : CodePoint → CodePoint
  | .scalar c => .scalar c.toLower
  | p => p

/-- The words that switch a setting on. -/
def affirmative : List Text := ["true", "1", "yes"]

/--
Whether a setting is switched on.  Blanks around the word and the case of ASCII letters do not
matter; every other word switches the setting off.
-/
def switchSetting (written : Option Text) (standard : Bool) : Bool :=
  match written with
  | none => standard
  | some t => (t.trim CodePoint.isBlank).map lowerAscii ∈ affirmative

/-- The policy that settings describe.  Of two bad numbers the lowest version is reported. -/
def ofSettings (lowest highest trailing : Option Text) : Except BadInteger ReadPolicy := do
  let lowestMajor ← integerSetting lowest standard.lowestMajor
  let highestMajor ← integerSetting highest standard.highestMajor
  return ⟨lowestMajor, highestMajor, switchSetting trailing standard.allowTrailing⟩

/-- Whether classes of a major version are accepted. -/
def accepts (policy : ReadPolicy) (major : Int) : Bool :=
  policy.lowestMajor ≤ major && major ≤ policy.highestMajor

theorem accepts_iff (policy : ReadPolicy) (major : Int) :
    policy.accepts major = true ↔ policy.lowestMajor ≤ major ∧ major ≤ policy.highestMajor := by
  simp [accepts]

end ReadPolicy

end ClassFormat
