/-
Constant pools as bytes.

A pool is laid out as its count and then its constants one after the other, each
a byte for its kind and a body.  The bytes of a text need not be the only ones
for that text, so a layout keeps them; everything else has one spelling.

`reads_decode` says that the decoder reads exactly the well-formed layouts.  The
count plays two parts in it: it is what the slots of the constants have to add up
to, and it is the bound that a constant of two slots must not cross.
-/
import ClassFormat.Proofs.Bytes.Reading
import ClassFormat.Proofs.ConstantPool.References

namespace ClassFormat

/-- A constant as it is written, its text as bytes. -/
abbrev RawConstant := Constant (List UInt8)

namespace Constant

/-- The constant with another text. -/
def map {α β : Type} (f : α → β) : Constant α → Constant β
  | utf8 text => utf8 (f text)
  | integer value => integer value
  | float value => float value
  | long value => long value
  | double value => double value
  | classRef name => classRef name
  | string text => string text
  | fieldRef owner member => fieldRef owner member
  | methodRef owner member => methodRef owner member
  | interfaceMethodRef owner member => interfaceMethodRef owner member
  | nameAndType name descriptor => nameAndType name descriptor
  | methodHandle kind reference => methodHandle kind reference
  | methodType descriptor => methodType descriptor
  | dynamic bootstrap member => dynamic bootstrap member
  | invokeDynamic bootstrap member => invokeDynamic bootstrap member
  | moduleRef name => moduleRef name
  | packageRef name => packageRef name

theorem width_map {α β : Type} (f : α → β) (x : Constant α) : (x.map f).width = x.width := by
  cases x <;> rfl

theorem totalWidth_map {α β : Type} (f : α → β) (xs : List (Constant α)) :
    totalWidth (xs.map (map f)) = totalWidth xs := by
  induction xs with
  | nil => rfl
  | cons x xs ih => rw [List.map_cons, totalWidth_cons, totalWidth_cons, width_map, ih]

/-- What a constant of each kind is made of. -/
theorem exists_of_tag {α : Type} {x : Constant α} {kind : Tag} : x.tag = kind →
    match kind with
    | .utf8 => ∃ text, utf8 text = x
    | .integer => ∃ value, integer value = x
    | .float => ∃ value, float value = x
    | .long => ∃ value, long value = x
    | .double => ∃ value, double value = x
    | .classRef => ∃ name, classRef name = x
    | .string => ∃ text, string text = x
    | .fieldRef => ∃ owner member, fieldRef owner member = x
    | .methodRef => ∃ owner member, methodRef owner member = x
    | .interfaceMethodRef => ∃ owner member, interfaceMethodRef owner member = x
    | .nameAndType => ∃ name descriptor, nameAndType name descriptor = x
    | .methodHandle => ∃ kind reference, methodHandle kind reference = x
    | .methodType => ∃ descriptor, methodType descriptor = x
    | .dynamic => ∃ bootstrap member, dynamic bootstrap member = x
    | .invokeDynamic => ∃ bootstrap member, invokeDynamic bootstrap member = x
    | .moduleRef => ∃ name, moduleRef name = x
    | .packageRef => ∃ name, packageRef name = x := by
  rintro rfl
  cases x with
  | fieldRef i k | methodRef i k | interfaceMethodRef i k | nameAndType i k
  | methodHandle i k | dynamic i k | invokeDynamic i k => exact ⟨i, k, rfl⟩
  | utf8 v | integer v | float v | long v | double v | classRef v | string v
  | methodType v | moduleRef v | packageRef v => exact ⟨v, rfl⟩

end Constant

namespace RawConstant

/-- The bytes after the one for the kind. -/
def body : RawConstant → List UInt8
  | .utf8 bytes => Encoder.u2 (.ofNat bytes.length) ++ bytes
  | .integer value => Encoder.i4 value
  | .float value => Encoder.f4 value
  | .long value => Encoder.i8 value
  | .double value => Encoder.f8 value
  | .classRef i | .string i | .methodType i | .moduleRef i | .packageRef i => Encoder.u2 i
  | .fieldRef i k | .methodRef i k | .interfaceMethodRef i k | .nameAndType i k
  | .dynamic i k | .invokeDynamic i k => Encoder.u2 i ++ Encoder.u2 k
  | .methodHandle kind i => Encoder.u1 kind ++ Encoder.u2 i

/-- The byte for the kind. -/
def code : RawConstant → UInt8
  | .utf8 _ => 1
  | .integer _ => 3
  | .float _ => 4
  | .long _ => 5
  | .double _ => 6
  | .classRef _ => 7
  | .string _ => 8
  | .fieldRef .. => 9
  | .methodRef .. => 10
  | .interfaceMethodRef .. => 11
  | .nameAndType .. => 12
  | .methodHandle .. => 15
  | .methodType _ => 16
  | .dynamic .. => 17
  | .invokeDynamic .. => 18
  | .moduleRef _ => 19
  | .packageRef _ => 20

theorem code_tag (x : RawConstant) : x.tag.code = code x := by
  cases x <;> rfl

/-- The constant in bytes. -/
def encode (x : RawConstant) : List UInt8 :=
  Encoder.u1 (code x) ++ body x

/-- The bytes of a text are no more than their count can say, and they are modified UTF-8. -/
def WellFormed : RawConstant → Prop
  | .utf8 bytes => bytes.length < 65536 ∧ (ModifiedUtf8.decode bytes).isSome
  | _ => True

instance (x : RawConstant) : Decidable (WellFormed x) := by
  cases x <;> unfold WellFormed <;> infer_instance

/-- The constant with its text decoded. -/
def view (x : RawConstant) : Entry :=
  x.map fun bytes => (ModifiedUtf8.decode bytes).getD []

theorem width_view (x : RawConstant) : (view x).width = x.width :=
  Constant.width_map _ x

end RawConstant

/-- The constants of a pool in the order in which they are written. -/
abbrev PoolLayout := List RawConstant

namespace PoolLayout

/-- One more than the number of slots that the constants take. -/
def count (xs : PoolLayout) : Nat :=
  1 + Constant.totalWidth xs

/-- The pool in bytes. -/
def encode (xs : PoolLayout) : List UInt8 :=
  Encoder.u2 (.ofNat (count xs)) ++ xs.flatMap RawConstant.encode

/-- The pool that the layout describes. -/
def view (xs : PoolLayout) : ConstantPool :=
  .ofEntries (xs.map RawConstant.view)

/-- What a pool has to meet in order to be read. -/
structure WellFormed (xs : PoolLayout) : Prop where
  /-- Every text can be decoded. -/
  constants : ∀ x ∈ xs, RawConstant.WellFormed x
  /-- The count fits its field. -/
  fits : count xs < 65536
  /-- References lead to constants of the right kinds, before or after. -/
  linked : (view xs).Linked

instance (xs : PoolLayout) : Decidable (WellFormed xs) :=
  decidable_of_iff ((∀ x ∈ xs, RawConstant.WellFormed x) ∧ count xs < 65536 ∧ (view xs).Linked)
    ⟨fun ⟨h₁, h₂, h₃⟩ => ⟨h₁, h₂, h₃⟩, fun h => ⟨h.constants, h.fits, h.linked⟩⟩

theorem count_view (xs : PoolLayout) : (view xs).count = count xs := by
  unfold view count RawConstant.view
  rw [ConstantPool.count_ofEntries]
  exact congrArg (1 + ·) (Constant.totalWidth_map _ xs)

end PoolLayout

/-! ### Reading one constant -/

theorem Tag.code_of_ofCode? {code : UInt8} {t : Tag} (h : Tag.ofCode? code = some t) :
    t.code = code := by
  have hfound := List.find?_some h
  simpa using hfound

namespace Entry

open Decoder

/-- A kind whose body is read in one step. -/
theorem reads_single {γ : Type} {tag : Tag} {p : Decoder γ} {encodeP : γ → List UInt8}
    (hp : p.Reads (written (fun _ => True) encodeP id)) (raw : γ → RawConstant)
    (entry : γ → Entry)
    (hraw : ∀ a, ((raw a).tag = tag ∧ RawConstant.WellFormed (raw a)) ∧
      RawConstant.body (raw a) = encodeP a ∧ RawConstant.view (raw a) = entry a)
    (hall : ∀ x : RawConstant, x.tag = tag → ∃ a, raw a = x) :
    (p >>= fun a => pure (entry a)).Reads
      (written (fun x : RawConstant => x.tag = tag ∧ RawConstant.WellFormed x)
        RawConstant.body RawConstant.view) := by
  refine (hp.map entry).rebuild raw (fun a _ => hraw a) ?_
  intro x h
  obtain ⟨a, ha⟩ := hall x h.1
  exact ⟨a, trivial, ha⟩

/-- A kind whose body is an index or a byte, and an index after it. -/
theorem reads_pair {γ : Type} {tag : Tag} {p : Decoder γ} {encodeP : γ → List UInt8}
    (hp : p.Reads (written (fun _ => True) encodeP id)) (raw : γ → UInt16 → RawConstant)
    (entry : γ → UInt16 → Entry)
    (hraw : ∀ a k, ((raw a k).tag = tag ∧ RawConstant.WellFormed (raw a k)) ∧
      RawConstant.body (raw a k) = encodeP a ++ Encoder.u2 k ∧
      RawConstant.view (raw a k) = entry a k)
    (hall : ∀ x : RawConstant, x.tag = tag → ∃ a k, raw a k = x) :
    (p >>= fun a => u2 >>= fun k => pure (entry a k)).Reads
      (written (fun x : RawConstant => x.tag = tag ∧ RawConstant.WellFormed x)
        RawConstant.body RawConstant.view) := by
  refine (hp.seq fun a _ => (reads_u2 _).map (entry a)).rebuild (fun z => raw z.1 z.2)
    (fun z _ => hraw z.1 z.2) ?_
  intro x h
  obtain ⟨a, k, ha⟩ := hall x h.1
  exact ⟨(a, k), ⟨trivial, trivial⟩, ha⟩

/-- The text of a sequence of bytes, or the fault that it has none. -/
theorem reads_text (start index : Nat) (bytes : List UInt8) :
    (match ModifiedUtf8.decode bytes with
      | some t => return .utf8 t
      | none => failAt start (.undecodableText index bytes) : Decoder Entry).Reads
      (written (fun _ : Unit => (ModifiedUtf8.decode bytes).isSome) (fun _ => [])
        fun _ => .utf8 ((ModifiedUtf8.decode bytes).getD [])) := by
  cases h : ModifiedUtf8.decode bytes with
  | some t =>
      refine (reads_pure (Constant.utf8 t)).reshape ?_ ?_
      · intro _ _
        exact ⟨(), rfl, rfl, rfl⟩
      · intro _ _
        exact ⟨(), trivial, rfl, rfl⟩
  | none =>
      refine reads_never (failAt_ne_ok _ _) ?_
      intro _ hsome
      cases hsome

/-- A text, with the number of its bytes in front. -/
theorem reads_utf8 (start index : Nat) :
    (decodeBody start index .utf8).Reads
      (written (fun x : RawConstant => x.tag = .utf8 ∧ RawConstant.WellFormed x)
        RawConstant.body RawConstant.view) := by
  refine ((reads_u2 _).seq fun n _ => (reads_take _ _).seq fun bytes _ =>
    reads_text start index bytes).rebuild (fun z => .utf8 z.2.1) ?_ ?_
  · intro z h
    obtain ⟨n, bytes, ⟨⟩⟩ := z
    obtain ⟨-, hlen, hsome⟩ := h
    have hlen' : bytes.length = n.toNat := hlen
    refine ⟨⟨rfl, ?_, hsome⟩, ?_, rfl⟩
    · rw [hlen']
      exact n.toNat_lt
    · show Encoder.u2 (.ofNat bytes.length) ++ bytes = Encoder.u2 n ++ (bytes ++ [])
      rw [hlen', UInt16.ofNat_toNat, List.append_nil]
  · intro x h
    obtain ⟨htag, hok⟩ := h
    obtain ⟨bytes, rfl⟩ := Constant.exists_of_tag htag
    refine ⟨(.ofNat bytes.length, bytes, ()), ⟨trivial, ?_, hok.2⟩, rfl⟩
    exact (UInt16.toNat_ofNat_of_lt' hok.1).symm

theorem reads_decodeBody (start index : Nat) (tag : Tag) :
    (decodeBody start index tag).Reads
      (written (fun x : RawConstant => x.tag = tag ∧ RawConstant.WellFormed x)
        RawConstant.body RawConstant.view) := by
  cases tag with
  | utf8 => exact reads_utf8 start index
  | integer =>
      exact reads_single (reads_i4 _) .integer .integer
        (fun _ => ⟨⟨rfl, trivial⟩, rfl, rfl⟩) fun _ h => Constant.exists_of_tag h
  | float =>
      exact reads_single (reads_f4 _) .float .float
        (fun _ => ⟨⟨rfl, trivial⟩, rfl, rfl⟩) fun _ h => Constant.exists_of_tag h
  | long =>
      exact reads_single (reads_i8 _) .long .long
        (fun _ => ⟨⟨rfl, trivial⟩, rfl, rfl⟩) fun _ h => Constant.exists_of_tag h
  | double =>
      exact reads_single (reads_f8 _) .double .double
        (fun _ => ⟨⟨rfl, trivial⟩, rfl, rfl⟩) fun _ h => Constant.exists_of_tag h
  | classRef =>
      exact reads_single (reads_u2 _) .classRef .classRef
        (fun _ => ⟨⟨rfl, trivial⟩, rfl, rfl⟩) fun _ h => Constant.exists_of_tag h
  | string =>
      exact reads_single (reads_u2 _) .string .string
        (fun _ => ⟨⟨rfl, trivial⟩, rfl, rfl⟩) fun _ h => Constant.exists_of_tag h
  | fieldRef =>
      exact reads_pair (reads_u2 _) .fieldRef .fieldRef
        (fun _ _ => ⟨⟨rfl, trivial⟩, rfl, rfl⟩) fun _ h => Constant.exists_of_tag h
  | methodRef =>
      exact reads_pair (reads_u2 _) .methodRef .methodRef
        (fun _ _ => ⟨⟨rfl, trivial⟩, rfl, rfl⟩) fun _ h => Constant.exists_of_tag h
  | interfaceMethodRef =>
      exact reads_pair (reads_u2 _) .interfaceMethodRef .interfaceMethodRef
        (fun _ _ => ⟨⟨rfl, trivial⟩, rfl, rfl⟩) fun _ h => Constant.exists_of_tag h
  | nameAndType =>
      exact reads_pair (reads_u2 _) .nameAndType .nameAndType
        (fun _ _ => ⟨⟨rfl, trivial⟩, rfl, rfl⟩) fun _ h => Constant.exists_of_tag h
  | methodHandle =>
      exact reads_pair (reads_u1 _) .methodHandle .methodHandle
        (fun _ _ => ⟨⟨rfl, trivial⟩, rfl, rfl⟩) fun _ h => Constant.exists_of_tag h
  | methodType =>
      exact reads_single (reads_u2 _) .methodType .methodType
        (fun _ => ⟨⟨rfl, trivial⟩, rfl, rfl⟩) fun _ h => Constant.exists_of_tag h
  | dynamic =>
      exact reads_pair (reads_u2 _) .dynamic .dynamic
        (fun _ _ => ⟨⟨rfl, trivial⟩, rfl, rfl⟩) fun _ h => Constant.exists_of_tag h
  | invokeDynamic =>
      exact reads_pair (reads_u2 _) .invokeDynamic .invokeDynamic
        (fun _ _ => ⟨⟨rfl, trivial⟩, rfl, rfl⟩) fun _ h => Constant.exists_of_tag h
  | moduleRef =>
      exact reads_single (reads_u2 _) .moduleRef .moduleRef
        (fun _ => ⟨⟨rfl, trivial⟩, rfl, rfl⟩) fun _ h => Constant.exists_of_tag h
  | packageRef =>
      exact reads_single (reads_u2 _) .packageRef .packageRef
        (fun _ => ⟨⟨rfl, trivial⟩, rfl, rfl⟩) fun _ h => Constant.exists_of_tag h

/-- A constant fits unless it takes two slots and there is only one left. -/
theorem fits_iff {index count : Nat} (hroom : index < count) (x : RawConstant) :
    index + x.width ≤ count ↔ ¬ ((x.tag = .long ∨ x.tag = .double) ∧ count ≤ index + 1) := by
  rw [Constant.width_eq]
  by_cases hwide : x.tag = .long ∨ x.tag = .double
  · rw [if_pos hwide]
    simp only [hwide, true_and]
    omega
  · rw [if_neg hwide]
    simp only [hwide, false_and, not_false_iff, iff_true]
    omega

theorem reads_decodeTagged {index count : Nat} (hroom : index < count) (start : Nat)
    (code : UInt8) :
    (decodeTagged index count start code).Reads
      (written (fun x : RawConstant => Tag.ofCode? code = some x.tag ∧
        RawConstant.WellFormed x ∧ index + x.width ≤ count) RawConstant.body RawConstant.view) := by
  unfold decodeTagged
  cases hcode : Tag.ofCode? code with
  | none =>
      refine reads_never (failAt_ne_ok _ _) ?_
      intro x h
      obtain ⟨htag, -⟩ := h
      cases htag
  | some tag =>
      simp only [List.mem_cons, List.not_mem_nil, or_false, Bool.and_eq_true, decide_eq_true_eq]
      rw [← ite_not]
      refine (Reads.guarded (failAt_ne_ok _ _) fun _ =>
        reads_decodeBody start index tag).rebuild id ?_ ?_
      · intro x h
        obtain ⟨hfits, rfl, hok⟩ := h
        exact ⟨⟨rfl, hok, (fits_iff hroom x).mpr hfits⟩, rfl, rfl⟩
      · intro x h
        obtain ⟨htag, hok, hle⟩ := h
        obtain rfl := Option.some.inj htag
        exact ⟨x, ⟨(fits_iff hroom x).mp hle, rfl, hok⟩, rfl⟩

/-- A constant, which has to leave room for its second slot if it takes two. -/
theorem reads_decode {index count : Nat} (hroom : index < count) :
    (decode index count).Reads
      (written (fun x : RawConstant => RawConstant.WellFormed x ∧ index + x.width ≤ count)
        RawConstant.encode RawConstant.view) := by
  refine (Reads.atOffset fun start => (reads_u1 _).seq fun code _ =>
    reads_decodeTagged hroom start code).rebuild Prod.snd ?_ ?_
  · intro z h
    obtain ⟨code, x⟩ := z
    obtain ⟨-, htag, hok⟩ := h
    refine ⟨hok, ?_, rfl⟩
    show Encoder.u1 (RawConstant.code x) ++ RawConstant.body x =
      Encoder.u1 code ++ RawConstant.body x
    rw [← RawConstant.code_tag, Tag.code_of_ofCode? htag]
  · intro x hok
    refine ⟨(RawConstant.code x, x), ⟨trivial, ?_, hok⟩, rfl⟩
    rw [← RawConstant.code_tag]
    exact Tag.ofCode?_code x.tag

/-- The constants that fill a number of slots. -/
theorem reads_decodeMany (left : Nat) : ∀ index : Nat,
    (decodeMany index left).Reads
      (written (fun xs : List RawConstant => (∀ x ∈ xs, RawConstant.WellFormed x) ∧
        Constant.totalWidth xs = left)
        (fun xs => xs.flatMap RawConstant.encode) fun xs => xs.map RawConstant.view) := by
  -- A constant takes one slot or two, so one step back is not always enough.
  induction left using Nat.strongRecOn with
  | ind left ih =>
      intro index
      cases left with
      | zero =>
          rw [decodeMany]
          refine (reads_pure []).reshape ?_ ?_
          · intro _ _
            exact ⟨[], ⟨by simp, rfl⟩, rfl, rfl⟩
          · intro xs h
            obtain ⟨-, hsum⟩ := h
            cases xs with
            | nil => exact ⟨(), trivial, rfl, rfl⟩
            | cons x xs =>
                have := x.width_pos
                rw [Constant.totalWidth_cons] at hsum
                omega
      | succ left =>
          rw [decodeMany]
          refine ((reads_decode (by omega)).seq fun x _ =>
            (ih (left + 1 - (RawConstant.view x).width) ?_ _).map
              fun es => RawConstant.view x :: es).rebuild (fun z => z.1 :: z.2) ?_ ?_
          · have := (RawConstant.view x).width_pos
            omega
          · intro z h
            obtain ⟨x, xs⟩ := z
            obtain ⟨⟨hx, hroom⟩, hxs, hsum⟩ := h
            refine ⟨⟨List.forall_mem_cons.mpr ⟨hx, hxs⟩, ?_⟩, rfl, rfl⟩
            have hle : x.width ≤ left + 1 := by
              have : index + x.width ≤ index + left + 1 := hroom
              omega
            have hsum' : Constant.totalWidth xs = left + 1 - (RawConstant.view x).width := hsum
            rw [RawConstant.width_view] at hsum'
            show Constant.totalWidth (x :: xs) = left + 1
            rw [Constant.totalWidth_cons]
            omega
          · intro xs h
            obtain ⟨hok, hsum⟩ := h
            cases xs with
            | nil => cases hsum
            | cons x xs =>
                obtain ⟨hx, hxs⟩ := List.forall_mem_cons.mp hok
                rw [Constant.totalWidth_cons] at hsum
                refine ⟨(x, xs), ⟨⟨hx, ?_⟩, hxs, ?_⟩, rfl⟩
                · show index + x.width ≤ index + left + 1
                  omega
                · show Constant.totalWidth xs = left + 1 - (RawConstant.view x).width
                  rw [RawConstant.width_view]
                  omega

end Entry

/-! ### Reading a pool -/

namespace ConstantPool

open Decoder

/-- What follows the count: the constants, and the check of what they refer to. -/
theorem reads_constants (count : UInt16) (hcount : count ≠ 0) :
    (do
      let pool := ofEntries (← Entry.decodeMany 1 (count.toNat - 1))
      ofResult pool.check
      return pool : Decoder ConstantPool).Reads
      (written (fun xs : PoolLayout => PoolLayout.count xs = count.toNat ∧
        PoolLayout.WellFormed xs) (fun xs => xs.flatMap RawConstant.encode) PoolLayout.view) := by
  have hpos : 0 < count.toNat := by
    rcases Nat.eq_zero_or_pos count.toNat with h | h
    · exact absurd (UInt16.toNat_inj.mp h) hcount
    · exact h
  have hlt : count.toNat < 65536 := count.toNat_lt
  have hcheck : ∀ pool : ConstantPool, Settles pool.check pool.Linked () := by
    intro pool _
    rw [check_ok_iff]
    exact ⟨fun h => ⟨h, rfl⟩, fun h => h.1⟩
  refine ((Entry.reads_decodeMany (count.toNat - 1) 1).seq fun xs _ =>
    Reads.resolve (hcheck (PoolLayout.view xs)) fun _ =>
      reads_pure (PoolLayout.view xs)).rebuild Prod.fst ?_ ?_
  · intro z h
    obtain ⟨xs, ⟨⟩⟩ := z
    obtain ⟨⟨hxs, hsum⟩, hlinked, -⟩ := h
    have hcountEq : PoolLayout.count xs = count.toNat := by
      have : Constant.totalWidth xs = count.toNat - 1 := hsum
      unfold PoolLayout.count
      omega
    refine ⟨⟨hcountEq, hxs, ?_, hlinked⟩, (List.append_nil _).symm, rfl⟩
    rw [hcountEq]
    exact hlt
  · intro xs h
    obtain ⟨hcountEq, hok⟩ := h
    refine ⟨(xs, ()), ⟨⟨hok.constants, ?_⟩, hok.linked, trivial⟩, rfl⟩
    show Constant.totalWidth xs = count.toNat - 1
    unfold PoolLayout.count at hcountEq
    omega

/-- **A pool is read exactly from its well-formed layouts.** -/
theorem reads_decode :
    decode.Reads (written PoolLayout.WellFormed PoolLayout.encode PoolLayout.view) := by
  have hrest : ∀ (start : Nat) (count : UInt16),
      (if count = 0 then failAt start .emptyPool
        else do
          let pool := ofEntries (← Entry.decodeMany 1 (count.toNat - 1))
          ofResult pool.check
          return pool : Decoder ConstantPool).Reads
        (written (fun xs : PoolLayout => PoolLayout.count xs = count.toNat ∧
          PoolLayout.WellFormed xs) (fun xs => xs.flatMap RawConstant.encode)
          PoolLayout.view) := by
    intro start count
    by_cases hzero : count = 0
    · rw [if_pos hzero]
      refine reads_never (failAt_ne_ok _ _) ?_
      intro xs h
      obtain ⟨hcount, -⟩ := h
      have hnat : count.toNat = 0 := by rw [hzero]; rfl
      unfold PoolLayout.count at hcount
      omega
    · rw [if_neg hzero]
      exact reads_constants count hzero
  refine (Reads.atOffset fun start => (reads_u2 _).seq fun count _ =>
    hrest start count).rebuild Prod.snd ?_ ?_
  · intro z h
    obtain ⟨count, xs⟩ := z
    obtain ⟨-, hcount, hok⟩ := h
    refine ⟨hok, ?_, rfl⟩
    show Encoder.u2 (.ofNat (PoolLayout.count xs)) ++ _ = Encoder.u2 count ++ _
    rw [show PoolLayout.count xs = count.toNat from hcount, UInt16.ofNat_toNat]
  · intro xs hok
    refine ⟨(.ofNat (PoolLayout.count xs), xs), ⟨trivial, ?_, hok⟩, rfl⟩
    exact (UInt16.toNat_ofNat_of_lt' hok.fits).symm

end ConstantPool

end ClassFormat
