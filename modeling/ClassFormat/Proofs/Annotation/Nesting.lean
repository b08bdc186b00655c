/-
How deep values nest while they are read.

The reader of values reads the values inside a value with itself, as often as a count in the
input says, and a count may be much larger than what is left of the input.  So neither the
counts nor the tree that is read bound the recursion: there is no tree yet, and on malformed
input there never will be.

What bounds it is the input.  `Asks` lists the cursors at which a reading asks for another one
inside it, whether or not the whole succeeds in the end, and each of them is at least three
bytes further on: a mark and a count come before any inner value.  Hence a chain of readings,
each inside the one before, is no longer than a third of the input, and what a reader does that
is nested deeper cannot matter.
-/
import ClassFormat.Proofs.Annotation.Reading

namespace ClassFormat

open Decoder

variable {pool : ConstantPool} {value : Decoder ElementValue} {c c' : Cursor}

/-! ### The recursion -/

namespace ElementValue

/-- A value, the values inside it being read by the given decoder. -/
def decodeWith (pool : ConstantPool) (value : Decoder ElementValue) : Decoder ElementValue := do
  let start ← offset
  let tag ← u1 "element_value tag"
  decodeBody pool value start tag

/-- A value with all values inside it that the input has. -/
def decode (pool : ConstantPool) : Decoder ElementValue := do
  decodeWithin pool (← remaining)

/-- A value of which a number of levels are read, and all that nests deeper by another decoder. -/
def decodeLevels (pool : ConstantPool) (deeper : Decoder ElementValue) :
    Nat → Decoder ElementValue
  | 0 => deeper
  | n + 1 => decodeWith pool (decodeLevels pool deeper n)

end ElementValue

/-- An annotation that is read at the first cursor asks for a value at the second. -/
inductive Annotation.Asks (pool : ConstantPool) (value : Decoder ElementValue) :
    Cursor → Cursor → Prop where
  | element {c c₁ c₂ c₃ c' : Cursor} {type name : Text} {count : UInt16} {i : Nat}
      {before : List Element} (htype : pool.decodeText "type_index" c = .ok type c₁)
      (hcount : u2 "num_element_value_pairs" c₁ = .ok count c₂) (hi : i < count.toNat)
      (hbefore : times i (Element.decodeWith pool value) c₂ = .ok before c₃)
      (hname : pool.decodeText "element_name_index" c₃ = .ok name c') :
      Asks pool value c c'

/-- A value that is read at the first cursor asks for a value inside it at the second. -/
inductive ElementValue.Asks (pool : ConstantPool) (value : Decoder ElementValue) :
    Cursor → Cursor → Prop where
  | item {c c₁ c₂ c' : Cursor} {count : UInt16} {i : Nat} {before : List ElementValue}
      {tag : UInt8} (hmark : Char.ofNat tag.toNat = '[')
      (htag : u1 "element_value tag" c = .ok tag c₁)
      (hcount : u2 "num_values" c₁ = .ok count c₂) (hi : i < count.toNat)
      (hbefore : times i value c₂ = .ok before c') : Asks pool value c c'
  | nested {c c₁ c' : Cursor} {tag : UInt8} (hmark : Char.ofNat tag.toNat = '@')
      (htag : u1 "element_value tag" c = .ok tag c₁)
      (h : Annotation.Asks pool value c₁ c') : Asks pool value c c'

/-! ### Nothing else is asked for -/

/-- An annotation depends on what is read at the cursors at which it asks for values. -/
theorem Annotation.decodeWith_eq_of {p q : Decoder ElementValue}
    (h : ∀ c', Asks pool q c c' → p c' = q c') : decodeWith pool p c = decodeWith pool q c := by
  refine bind_eq_of rfl fun type c₁ htype => bind_eq_of rfl fun count c₂ hcount => ?_
  refine bind_eq_of (times_eq_of fun i hi before c₃ hbefore => ?_) fun _ _ _ => rfl
  refine bind_eq_of rfl fun name c' hname => bind_eq_of ?_ fun _ _ _ => rfl
  exact h c' (.element htype hcount hi hbefore hname)

/-- A value depends on what is read at the cursors at which it asks for values inside it. -/
theorem ElementValue.decodeWith_eq_of {p q : Decoder ElementValue}
    (h : ∀ c', Asks pool q c c' → p c' = q c') : decodeWith pool p c = decodeWith pool q c := by
  refine bind_eq_of rfl fun start c₀ hstart => ?_
  cases hstart
  refine bind_eq_of rfl fun tag c₁ htag => ?_
  unfold decodeBody
  generalize hmark : Char.ofNat tag.toNat = mark
  split
  · rfl
  · rfl
  · rfl
  · refine bind_eq_of ?_ fun _ _ _ => rfl
    exact Annotation.decodeWith_eq_of fun c' hasks => h c' (.nested hmark htag hasks)
  · refine bind_eq_of rfl fun count c₂ hcount => ?_
    refine bind_eq_of (times_eq_of fun i hi before c' hbefore => ?_) fun _ _ _ => rfl
    exact h c' (.item hmark htag hcount hi hbefore)
  · rfl

/-! ### Three bytes go by -/

theorem ConstantPool.remaining_of_decodeText {item : String} {t : Text}
    (h : pool.decodeText item c = .ok t c') : c.remaining = 2 + c'.remaining :=
  (reads_decodeText item).remaining_eq Encoder.length_u2 h

theorem Element.decodeWith_forward (h : value.Forward) :
    (decodeWith pool value).Forward := by
  intro c e c' hp
  obtain ⟨name, c₁, hname, hp⟩ := bind_ok.mp hp
  obtain ⟨v, _, hvalue, hp⟩ := bind_ok.mp hp
  cases hp
  have := pool.remaining_of_decodeText hname
  have := h c₁ v c' hvalue
  omega

/-- The type, the count and a name come before a value. -/
theorem Annotation.remaining_of_asks (hforward : value.Forward) (h : Asks pool value c c') :
    c'.remaining + 6 ≤ c.remaining := by
  cases h with
  | element htype hcount _ hbefore hname =>
      have := pool.remaining_of_decodeText htype
      have := remaining_of_u2 hcount
      have := (Element.decodeWith_forward hforward).times _ _ _ _ hbefore
      have := pool.remaining_of_decodeText hname
      omega

/-- **The mark and a count come before a value that is inside another.** -/
theorem ElementValue.remaining_of_asks (hforward : value.Forward) (h : Asks pool value c c') :
    c'.remaining + 3 ≤ c.remaining := by
  cases h with
  | item _ htag hcount _ hbefore =>
      have := remaining_of_u1 htag
      have := remaining_of_u2 hcount
      have := hforward.times _ _ _ _ hbefore
      omega
  | nested _ htag h =>
      have := remaining_of_u1 htag
      have := Annotation.remaining_of_asks hforward h
      omega

/-! ### The bound on the depth does not show -/

namespace ElementValue

theorem decodeWithin_forward (n : Nat) : (decodeWithin pool n).Forward :=
  (reads_decodeWithin pool n).forward

/-- Levels that the input is too short for may be read in any way. -/
theorem decodeLevels_eq_decodeWithin (deeper : Decoder ElementValue) {n m : Nat}
    (hn : c.remaining < 3 * n) (hm : c.remaining < 3 * m) :
    decodeLevels pool deeper n c = decodeWithin pool m c := by
  induction n generalizing m c with
  | zero => omega
  | succ n ih =>
      cases m with
      | zero => omega
      | succ m =>
          show decodeWith pool (decodeLevels pool deeper n) c =
            decodeWith pool (decodeWithin pool m) c
          apply decodeWith_eq_of
          intro c' hasks
          have := remaining_of_asks (decodeWithin_forward m) hasks
          exact ih (by omega) (by omega)

theorem decodeWithin_zero (h : c.remaining = 0) (n : Nat) :
    decodeWithin pool 0 c = decodeWithin pool n c := by
  cases n with
  | zero => rfl
  | succ n =>
      obtain ⟨offset, rest, passed⟩ := c
      have hrest : rest = [] := List.length_eq_zero_iff.mp h
      subst hrest
      rfl

theorem decode_eq_decodeWithin {n : Nat} (h : c.remaining < 3 * n) :
    decode pool c = decodeWithin pool n c := by
  show decodeWithin pool c.remaining c = _
  by_cases hzero : c.remaining = 0
  · rw [hzero]
    exact decodeWithin_zero hzero n
  · have hlevels {m : Nat} (hm : c.remaining < 3 * m) :
        decodeLevels pool (decode pool) n c = decodeWithin pool m c :=
      decodeLevels_eq_decodeWithin (decode pool) h hm
    exact (hlevels (by omega)).symm.trans (hlevels h)

/-- The reader of values reads the values inside a value with itself. -/
theorem decode_eq (pool : ConstantPool) : decode pool = decodeWith pool (decode pool) := by
  funext c
  have hbound : decode pool c = decodeWith pool (decodeWithin pool c.remaining) c :=
    decode_eq_decodeWithin (n := c.remaining + 1) (by omega)
  rw [hbound]
  refine (decodeWith_eq_of fun c' hasks => ?_).symm
  have := remaining_of_asks (decodeWithin_forward _) hasks
  exact decode_eq_decodeWithin (by omega)

theorem decode_forward : (decode pool).Forward :=
  fun c => decodeWithin_forward c.remaining c

/-- Enough levels are as good as all. -/
theorem decodeLevels_eq_decode (deeper : Decoder ElementValue) {n : Nat}
    (h : c.remaining < 3 * n) : decodeLevels pool deeper n c = decode pool c :=
  (decodeLevels_eq_decodeWithin deeper h h).trans (decode_eq_decodeWithin h).symm

/-- A chain of readings, each inside the one before, goes down the input in steps of three. -/
theorem length_chain_le {cs : List Cursor}
    (h : List.IsChain (Asks pool (decode pool)) (c :: cs)) : 3 * cs.length ≤ c.remaining := by
  induction cs generalizing c with
  | nil => exact Nat.zero_le _
  | cons c' cs ih =>
      obtain ⟨hasks, hrest⟩ := List.isChain_cons_cons.mp h
      have := remaining_of_asks decode_forward hasks
      have := ih hrest
      rw [List.length_cons]
      omega

end ElementValue

namespace Annotation

/-- An annotation reads its values with the reader of values. -/
theorem decode_eq (pool : ConstantPool) :
    decode pool = decodeWith pool (ElementValue.decode pool) := by
  funext c
  show decodeWith pool (ElementValue.decodeWithin pool c.remaining) c = _
  refine (decodeWith_eq_of fun c' hasks => ?_).symm
  have := remaining_of_asks (ElementValue.decodeWithin_forward _) hasks
  exact ElementValue.decode_eq_decodeWithin (by omega)

end Annotation

end ClassFormat
