/-
Class files under relations that decoders respect.

Here is the one walk through all decoders of class files.  Each of them respects every
congruence, and what it gives is the same but for bytes that are passed over and kept.
Those are the instructions of method bodies; `mapInstructions` looks at them through what
the congruence sees of such bytes, on every level from the body up to the class.

Two decoders are more than parts put together.  A frame compares the declared length with
what is left, and a value of an annotation may nest as deep as there are bytes left.  Where
less is left for the first run, it is cut in both cases before that makes a difference.
-/
import ClassFormat.ClassFile.Basic
import ClassFormat.Proofs.Bytes.Congruence

namespace ClassFormat

open Decoder

/-! ### Instructions at each level -/

section Instructions

variable (f : List UInt8 → List UInt8)

/-- The body with its instructions changed. -/
def Code.mapInstructions (body : Code) : Code :=
  { body with instructions := f body.instructions }

/-- The payload with the instructions in it changed. -/
def Payload.mapInstructions : Payload → Payload
  | .code body => .code (body.mapInstructions f)
  | p => p

/-- The attribute with its payload changed. -/
def Attribute.map {P Q : Type} (g : P → Q) (a : Attribute P) : Attribute Q :=
  ⟨a.name, a.length, g a.payload⟩

/-- The attributes with the instructions in them changed. -/
def AttributeSet.mapInstructions (s : AttributeSet) : AttributeSet :=
  { s with stored := s.stored.map (Attribute.map (Payload.mapInstructions f)) }

/-- The member with the instructions in it changed. -/
def Member.mapInstructions (m : Member) : Member :=
  { m with attributes := m.attributes.mapInstructions f }

/-- The field with the instructions in it changed. -/
def Field.mapInstructions (x : Field) : Field :=
  ⟨x.toMember.mapInstructions f⟩

/-- The method with the instructions in it changed. -/
def Method.mapInstructions (m : Method) : Method :=
  ⟨m.toMember.mapInstructions f⟩

/-- The class with all instructions changed. -/
def ClassFile.mapInstructions (c : ClassFile) : ClassFile :=
  { c with
    fields := c.fields.map (Field.mapInstructions f)
    methods := c.methods.map (Method.mapInstructions f)
    attributes := c.attributes.mapInstructions f }

theorem AttributeSet.mapInstructions_ofMarked (found : List (Option (Attribute Payload))) :
    (ofMarked found).mapInstructions f =
      ofMarked (found.map (Option.map (Attribute.map (Payload.mapInstructions f)))) := by
  have hstored : (found.filterMap id).map (Attribute.map (Payload.mapInstructions f)) =
      (found.map (Option.map (Attribute.map (Payload.mapInstructions f)))).filterMap id := by
    rw [List.filterMap_map, List.map_filterMap]
    rfl
  have hdeprecated : found.any Option.isNone =
      (found.map (Option.map (Attribute.map (Payload.mapInstructions f)))).any Option.isNone := by
    rw [List.any_map]
    refine congrArg found.any (funext fun o => ?_)
    exact Option.isNone_map.symm
  exact congr (congrArg AttributeSet.mk hstored) hdeprecated

end Instructions

theorem AttributeSet.mapInstructions_id (s : AttributeSet) : s.mapInstructions id = s := by
  have hpayload : Attribute.map (Payload.mapInstructions id) = id := by
    funext a
    obtain ⟨name, length, payload⟩ := a
    cases payload <;> rfl
  show AttributeSet.mk (s.stored.map _) s.deprecated = s
  rw [hpayload, List.map_id]

theorem ClassFile.mapInstructions_id (c : ClassFile) : c.mapInstructions id = c := by
  have hmember : ∀ m : Member, m.mapInstructions id = m := fun m =>
    congrArg (Member.mk _ _ _) m.attributes.mapInstructions_id
  have hfield : Field.mapInstructions id = id := funext fun x => congrArg Field.mk (hmember _)
  have hmethod : Method.mapInstructions id = id := funext fun m => congrArg Method.mk (hmember _)
  simp only [mapInstructions, hfield, hmethod, List.map_id, AttributeSet.mapInstructions_id]

variable (L : Congruence)

/-! ### Constants -/

theorem Entry.decodeBody_respects (start index : Nat) (tag : Tag) :
    L.Respects (Entry.decodeBody start index tag) := by
  have hindex : ∀ make : UInt16 → Entry, L.Respects (do return make (← u2)) :=
    fun make => L.seq (L.u2 _) fun _ => L.pure rfl
  have hpair : ∀ make : UInt16 → UInt16 → Entry, L.Respects (do return make (← u2) (← u2)) :=
    fun make => L.seq (L.u2 _) fun _ => L.seq (L.u2 _) fun _ => L.pure rfl
  cases tag with
  | utf8 =>
      refine L.seq (L.u2 _) fun length => L.seq (L.take _ _) fun bytes => ?_
      cases ModifiedUtf8.decode bytes with
      | some t => exact L.pure rfl
      | none => exact L.fail _
  | integer => exact L.seq (L.i4 _) fun _ => L.pure rfl
  | float => exact L.seq (L.f4 _) fun _ => L.pure rfl
  | long => exact L.seq (L.i8 _) fun _ => L.pure rfl
  | double => exact L.seq (L.f8 _) fun _ => L.pure rfl
  | methodHandle => exact L.seq (L.u1 _) fun _ => L.seq (L.u2 _) fun _ => L.pure rfl
  | classRef | string | methodType | moduleRef | packageRef => exact hindex _
  | fieldRef | methodRef | interfaceMethodRef | nameAndType | dynamic | invokeDynamic =>
      exact hpair _

theorem Entry.decode_respects (index count : Nat) : L.Respects (Entry.decode index count) := by
  refine L.seq L.offset fun start => L.seq (L.u1 _) fun code => ?_
  unfold Entry.decodeTagged
  cases Tag.ofCode? code with
  | none => exact L.fail _
  | some tag => exact L.ite (L.fail _) (Entry.decodeBody_respects L start index tag)

theorem Entry.decodeMany_respects (index left : Nat) :
    L.Respects (Entry.decodeMany index left) := by
  fun_induction Entry.decodeMany index left with
  | case1 index => exact L.pure rfl
  | case2 index left ih =>
      exact L.seq (Entry.decode_respects L _ _) fun e => L.seq (ih e) fun _ => L.pure rfl

theorem ConstantPool.decode_respects : L.Respects ConstantPool.decode := by
  refine L.seq L.offset fun start => L.seq (L.u2 _) fun count => L.ite (L.fail _) ?_
  refine L.seq (Entry.decodeMany_respects L _ _) fun entries => ?_
  exact L.seq (L.ofResult _) fun _ => L.pure rfl

/-! ### Annotations -/

section Annotations

variable (pool : ConstantPool)

theorem ConstantPool.decodeText_respects (item : String) : L.Respects (pool.decodeText item) :=
  L.seq (L.u2 _) fun _ => L.ofResult _

variable {L} {value value' : Decoder ElementValue} (h : L.Rel Eq value value')
include h

namespace Annotation

theorem decodeWith_congr : L.Rel Eq (decodeWith pool value) (decodeWith pool value') := by
  have helement : L.Rel Eq (Element.decodeWith pool value) (Element.decodeWith pool value') :=
    L.seq (pool.decodeText_respects L _) fun _ => L.seq h fun _ => L.pure rfl
  refine L.seq (pool.decodeText_respects L _) fun type => L.seq (L.u2 _) fun count => ?_
  exact L.seq (L.times helement _) fun _ => L.pure rfl

end Annotation

theorem ElementValue.decodeBody_congr (start : Nat) (tag : UInt8) :
    L.Rel Eq (ElementValue.decodeBody pool value start tag)
      (ElementValue.decodeBody pool value' start tag) := by
  have hcontent := Annotation.decodeWith_congr pool h
  unfold ElementValue.decodeBody
  split
  · exact L.seq (pool.decodeText_respects L _) fun _ => L.pure rfl
  · refine L.seq (L.u2 _) fun _ => L.seq (L.u2 _) fun _ => ?_
    exact L.seq (L.ofResult _) fun _ => L.seq (L.ofResult _) fun _ => L.pure rfl
  · exact L.seq (pool.decodeText_respects L _) fun _ => L.pure rfl
  · exact L.seq hcontent fun _ => L.pure rfl
  · exact L.seq (L.u2 _) fun _ => L.seq (L.times h _) fun _ => L.pure rfl
  · split
    · exact L.seq (L.u2 _) fun _ => L.seq (L.ofResult _) fun _ => L.pure rfl
    · exact L.fail _

end Annotations

/-- A bound on the depth of values matters only where the input is used up. -/
theorem ElementValue.decodeWithin_congr (pool : ConstantPool) {n m : Nat} (h : L.Left n m) :
    L.Rel Eq (ElementValue.decodeWithin pool n) (ElementValue.decodeWithin pool m) := by
  have hle := L.left_le h
  induction n generalizing m with
  | zero =>
      cases m with
      | zero => exact L.failHere _
      | succ m => exact L.seq L.offset fun _ => L.cut _ h (by omega) (.inl rfl)
  | succ n ih =>
      cases m with
      | zero => omega
      | succ m =>
          refine L.seq L.offset fun start => L.seq (L.u1 _) fun tag => ?_
          exact ElementValue.decodeBody_congr pool (ih (L.left_pred h) (by omega)) start tag

namespace Annotation

theorem decode_respects (pool : ConstantPool) : L.Respects (decode pool) :=
  L.bind L.remaining fun _ _ h =>
    decodeWith_congr pool (ElementValue.decodeWithin_congr L pool h)

end Annotation

/-! ### Attributes -/

namespace Attribute

variable {L} {P Q : Type} {g : P → Q}

theorem framed_respects {p : Decoder P} (h : L.RespectsUpTo g p) (name : Text) (length : Nat) :
    L.RespectsUpTo (Attribute.map g) (framed name length p) := by
  refine L.seq L.offset fun start => L.bind L.remaining fun left left' hleft => ?_
  have hpayload : L.RespectsUpTo (Attribute.map g) (do
      let a ← p
      let consumed := (← offset) - start
      if consumed = length then return ⟨name, length, a⟩
      else failAt start (.attributeLength name length consumed)) := by
    refine L.bind h fun a b hab => L.seq L.offset fun _ => L.ite (L.pure ?_) (L.fail _)
    exact congrArg (Attribute.mk name length) hab
  by_cases hsame : left = left'
  · subst hsame
    exact L.ite (L.fail _) hpayload
  · have hle := L.left_le hleft
    by_cases hshort : left < length
    · rw [if_pos hshort]
      exact L.cut _ hleft hsame (.inr rfl)
    · have hshort' : ¬ left' < length := by omega
      rw [if_neg hshort, if_neg hshort']
      exact hpayload

theorem decodeBy_respects {table : PayloadTable P}
    (h : ∀ entry ∈ table, L.RespectsUpTo g entry.2) (other : P) (name : Text) (length : Nat) :
    L.RespectsUpTo (Attribute.map g) (decodeBy table other name length) := by
  unfold decodeBy
  cases hlookup : table.lookup name with
  | none => exact framed_respects (L.seq (L.skip _ _) fun _ => L.pure rfl) name length
  | some p =>
      obtain ⟨front, back, rfl, -⟩ := List.lookup_eq_some_iff.mp hlookup
      exact framed_respects (h (name, p) (by simp)) name length

theorem decodeList_respects {α β : Type} {f : α → β} (pool : ConstantPool)
    {body : Text → Nat → Decoder α} (h : ∀ name length, L.RespectsUpTo f (body name length)) :
    L.RespectsUpTo (List.map f) (decodeList pool body) := by
  refine L.seq (L.u2 _) fun count => L.timesUpTo ?_ _
  refine L.seq (pool.decodeText_respects L _) fun name => L.seq (L.u4 _) fun length => ?_
  exact h name _

end Attribute

theorem resolveOptional_respects (resolve : Int → Except Fault Text) (index : UInt16) :
    L.Respects (resolveOptional resolve index) :=
  L.ite (L.pure rfl) (L.seq (L.ofResult _) fun _ => L.pure rfl)

namespace Payload

variable (pool : ConstantPool)

theorem decodeConstantValue_respects : L.Respects (decodeConstantValue pool) :=
  L.seq (L.u2 _) fun _ => L.seq (L.ofResult _) fun _ => L.pure rfl

theorem decodeSignature_respects {α : Type} (read : Text → Except Fault α) :
    L.Respects (decodeSignature pool read) :=
  L.seq (L.u2 _) fun _ => L.seq (L.ofResult _) fun _ => L.seq (L.ofResult _) fun _ => L.pure rfl

theorem decodeSourceFile_respects : L.Respects (decodeSourceFile pool) :=
  L.seq (L.u2 _) fun _ => L.seq (L.ofResult _) fun _ => L.pure rfl

theorem decodeExceptions_respects : L.Respects (decodeExceptions pool) := by
  refine L.seq (L.u2 _) fun count => L.seq (L.times (L.u2 _) _) fun indices => ?_
  refine L.seq (L.forM (fun _ => ?_) indices) fun _ => L.pure rfl
  exact L.seq (L.ofResult _) fun _ => L.pure rfl

theorem decodeInnerClasses_respects : L.Respects (decodeInnerClasses pool) := by
  have hentry : L.Respects (decodeInnerClass pool) := by
    refine L.seq (L.u2 _) fun _ => L.seq (L.u2 _) fun _ => L.seq (L.u2 _) fun _ => ?_
    refine L.seq (L.u2 _) fun _ => L.seq (L.ofResult _) fun _ => ?_
    refine L.seq (resolveOptional_respects L _ _) fun _ => ?_
    exact L.seq (resolveOptional_respects L _ _) fun _ => L.pure rfl
  exact L.seq (L.u2 _) fun _ => L.seq (L.times hentry _) fun _ => L.pure rfl

theorem decodeMethodParameters_respects : L.Respects (decodeMethodParameters pool) := by
  have hentry : L.Respects (decodeMethodParameter pool) := by
    refine L.seq (L.u2 _) fun _ => L.seq (L.u2 _) fun _ => ?_
    exact L.seq (resolveOptional_respects L _ _) fun _ => L.pure rfl
  exact L.seq (L.u1 _) fun _ => L.seq (L.times hentry _) fun _ => L.pure rfl

theorem decodeAnnotations_respects : L.Respects (decodeAnnotations pool) := by
  have heach := Annotation.decode_respects L pool
  exact L.seq (L.u2 _) fun _ => L.seq (L.times heach _) fun _ => L.pure rfl

end Payload

namespace Code

theorem decodeAttribute_respects (name : Text) (length : Nat) :
    L.Respects (decodeAttribute name length) := by
  have hline : L.Respects decodeLineNumber :=
    L.seq (L.u2 _) fun _ => L.seq (L.u2 _) fun _ => L.pure rfl
  have hlines : L.Respects decodeLineNumbers :=
    L.seq (L.u2 _) fun _ => L.seq (L.times hline _) fun _ => L.pure rfl
  have htable : ∀ entry ∈ table, L.RespectsUpTo id entry.2 :=
    List.forall_mem_singleton.mpr (hlines.upTo id)
  exact Attribute.decodeBy_respects htable _ name length

/-- A body is the same but for the instructions. -/
theorem decode_respects (pool : ConstantPool) :
    L.RespectsUpTo (Code.mapInstructions L.view) (Code.decode pool) := by
  have hhandler : L.Respects (decodeHandler pool) := by
    refine L.seq (L.u2 _) fun _ => L.seq (L.u2 _) fun _ => L.seq (L.u2 _) fun _ => ?_
    refine L.seq (L.u2 _) fun _ => ?_
    exact L.seq (resolveOptional_respects L _ _) fun _ => L.pure rfl
  have hattributes : L.Respects (Attribute.decodeList pool decodeAttribute) := by
    refine L.mono (Attribute.decodeList_respects (f := id) pool (decodeAttribute_respects L)) ?_
    intro as bs h
    rwa [List.map_id, List.map_id] at h
  refine L.seq (L.u2 _) fun _ => L.seq (L.u2 _) fun _ => L.seq (L.u4 _) fun size => ?_
  refine L.bind (L.pass _ _) fun x y hxy => L.seq (L.u2 _) fun count => ?_
  refine L.seq (L.times hhandler _) fun handlers => L.seq hattributes fun attributes => L.pure ?_
  exact congrArg (fun bytes => Code.mk _ _ bytes handlers attributes) hxy

end Code

/-! ### Owners -/

theorem OwnerKind.table_respects (pool : ConstantPool) (owner : OwnerKind) :
    ∀ entry ∈ owner.table pool, L.RespectsUpTo (Payload.mapInstructions L.view) entry.2 := by
  have hannotations := Payload.decodeAnnotations_respects L pool
  have hsignature : ∀ {α : Type} (read : Text → Except Fault α),
      L.Respects (Payload.decodeSignature pool read) := Payload.decodeSignature_respects L pool
  cases owner with
  | ofClass =>
      simp only [table, sharedTable, List.forall_mem_cons]
      exact ⟨(Payload.decodeSourceFile_respects L pool).upTo _, (hsignature _).upTo _,
        (Payload.decodeInnerClasses_respects L pool).upTo _, hannotations.upTo _,
        hannotations.upTo _, List.forall_mem_nil _⟩
  | ofField =>
      simp only [table, sharedTable, List.forall_mem_cons]
      exact ⟨(Payload.decodeConstantValue_respects L pool).upTo _, (hsignature _).upTo _,
        hannotations.upTo _, hannotations.upTo _, List.forall_mem_nil _⟩
  | ofMethod =>
      simp only [table, sharedTable, List.forall_mem_cons]
      exact ⟨L.map (Code.decode_respects L pool) fun _ _ h => congrArg Payload.code h,
        (Payload.decodeExceptions_respects L pool).upTo _, (hsignature _).upTo _,
        (Payload.decodeMethodParameters_respects L pool).upTo _, hannotations.upTo _,
        hannotations.upTo _, List.forall_mem_nil _⟩

theorem OwnerKind.decodeMarked_respects (pool : ConstantPool) (owner : OwnerKind) (name : Text)
    (length : Nat) :
    L.RespectsUpTo (Option.map (Attribute.map (Payload.mapInstructions L.view)))
      (owner.decodeMarked pool name length) := by
  refine L.ite (L.ite (L.pure rfl) (L.failHere _)) ?_
  have hattribute := Attribute.decodeBy_respects (owner.table_respects L pool) .uninterpreted
    name length
  exact L.map hattribute fun _ _ h => congrArg some h

theorem AttributeSet.decode_respects (pool : ConstantPool) (owner : OwnerKind) :
    L.RespectsUpTo (AttributeSet.mapInstructions L.view) (AttributeSet.decode pool owner) := by
  have hlist := Attribute.decodeList_respects pool (owner.decodeMarked_respects L pool)
  refine L.bind hlist fun found found' h => L.pure ?_
  rw [mapInstructions_ofMarked, mapInstructions_ofMarked, h]

theorem Member.decode_respects {α : Type} (pool : ConstantPool) (owner : OwnerKind)
    (label : String) (read : Text → Except Fault α) :
    L.RespectsUpTo (Member.mapInstructions L.view) (Member.decode pool owner label read) := by
  refine L.seq (L.u2 _) fun _ => L.seq (L.u2 _) fun _ => L.seq (L.u2 _) fun _ => ?_
  refine L.seq (L.ofResult _) fun _ => L.seq (L.ofResult _) fun _ => ?_
  refine L.seq (L.ofResult _) fun _ => ?_
  refine L.bind (AttributeSet.decode_respects L pool owner) fun s t h => L.pure ?_
  exact congrArg (Member.mk _ _ _) h

theorem Field.decode_respects (pool : ConstantPool) :
    L.RespectsUpTo (Field.mapInstructions L.view) (Field.decode pool) :=
  L.bind (Member.decode_respects L pool _ _ _) fun _ _ h => L.pure (congrArg Field.mk h)

theorem Method.decode_respects (pool : ConstantPool) :
    L.RespectsUpTo (Method.mapInstructions L.view) (Method.decode pool) :=
  L.bind (Member.decode_respects L pool _ _ _) fun _ _ h => L.pure (congrArg Method.mk h)

/-! ### Class files -/

namespace ClassFile

theorem decodeHeader_respects (policy : ReadPolicy) : L.Respects (decodeHeader policy) := by
  refine L.seq L.offset fun start => L.seq (L.u4 _) fun found => L.ite (L.fail _) ?_
  refine L.seq (L.u2 _) fun minor => L.seq L.offset fun versionAt => ?_
  exact L.seq (L.u2 _) fun major => L.ite (L.pure rfl) (L.fail _)

theorem requireClass_respects (pool : ConstantPool) (index : UInt16) :
    L.Respects (requireClass pool index) :=
  L.seq (L.ofResult _) fun _ => L.pure rfl

theorem checkSuperclass_respects (pool : ConstantPool) (accessFlags thisClass superclass : UInt16) :
    L.Respects (checkSuperclass pool accessFlags thisClass superclass) :=
  L.ite (L.ofResult _) (L.seq (requireClass_respects L _ _) fun _ => L.pure rfl)

/-- **A class file is read alike under every congruence**, but for its instructions. -/
theorem decodeBody_respects (policy : ReadPolicy) :
    L.RespectsUpTo (ClassFile.mapInstructions L.view) (decodeBody policy) := by
  refine L.seq (decodeHeader_respects L policy) fun _ => ?_
  refine L.seq (ConstantPool.decode_respects L) fun pool => ?_
  refine L.seq (L.u2 _) fun _ => L.seq (L.u2 _) fun _ => L.seq (L.u2 _) fun _ => ?_
  refine L.seq (requireClass_respects L _ _) fun _ => ?_
  refine L.seq (checkSuperclass_respects L _ _ _ _) fun anomalies => ?_
  refine L.seq (L.u2 _) fun _ => L.seq (L.times (L.u2 _) _) fun interfaces => ?_
  refine L.seq (L.forM (requireClass_respects L pool) _) fun _ => ?_
  refine L.seq (L.u2 _) fun _ => L.bind (L.timesUpTo (Field.decode_respects L pool) _) ?_
  intro fields fields' hfields
  refine L.seq (L.u2 _) fun _ => L.bind (L.timesUpTo (Method.decode_respects L pool) _) ?_
  intro methods methods' hmethods
  refine L.bind (AttributeSet.decode_respects L pool .ofClass) fun s t hattributes => L.pure ?_
  simp only [mapInstructions, hfields, hmethods, hattributes]

end ClassFile

end ClassFormat
