/-
Faults of class files tell the truth.

Every decoder of a part of a class file accounts for the bytes of the input, whatever the bytes
are; the walk from constants and annotations up to the class shows it for one after the other.
So the offset of a fault lies in the file, and what a fault counts can be counted again from
that offset to the end of the file.

In two places the bytes that are left have a say.  A frame knows that its declared length fits
into the rest before its payload is read, which is why a wrong length still ends within the
file.  And the depth of annotation values is bounded by what was left when the annotation
began: as every value takes a byte, the bound is used up only where the input is.
-/
import ClassFormat.Proofs.Bytes.Accounting
import ClassFormat.Proofs.ClassFile.Delimited
import ClassFormat.Proofs.Result

namespace ClassFormat

open Decoder

variable {size low : Nat} {pool : ConstantPool}

/-! ### Queries -/

namespace ConstantPool

theorem unplaced_entry (i : Int) : Unplaced (pool.entry i) := by
  unfold entry
  by_cases hrange : (decide (0 < i) && decide (i < pool.count)) = true
  · rw [if_pos hrange]
    split
    · exact .pure _
    · exact .error id
  · rw [if_neg hrange]
    exact .error id

theorem unplaced_mismatch {α : Type} (i : Int) (expected : List Tag) (e : Entry) :
    Unplaced (mismatch i expected e : Except Fault α) :=
  .error id

theorem unplaced_get (i : Int) (expected : List Tag) : Unplaced (pool.get i expected) :=
  (unplaced_entry i).bind fun e => .ite (.pure e) (unplaced_mismatch _ _ _)

theorem unplaced_utf8 (i : Int) : Unplaced (pool.utf8 i) := by
  refine (unplaced_entry i).bind fun e => ?_
  cases e with
  | utf8 t => exact .pure t
  | _ => exact unplaced_mismatch _ _ _

theorem unplaced_className (i : Int) : Unplaced (pool.className i) := by
  refine (unplaced_entry i).bind fun e => ?_
  cases e with
  | classRef name => exact unplaced_utf8 _
  | _ => exact unplaced_mismatch _ _ _

theorem unplaced_literal (i : Int) : Unplaced (pool.literal i) := by
  refine (unplaced_entry i).bind fun e => ?_
  cases e with
  | integer v => exact .pure _
  | float v => exact .pure _
  | long v => exact .pure _
  | double v => exact .pure _
  | string t => exact (unplaced_utf8 _).bind fun _ => .pure _
  | _ => exact unplaced_mismatch _ _ _

theorem unplaced_primitive (type : Primitive) (i : Int) : Unplaced (pool.primitive type i) := by
  refine (unplaced_entry i).bind fun _ => ?_
  split
  · exact .pure _
  · exact .pure _
  · exact .pure _
  · exact .pure _
  · exact unplaced_mismatch _ _ _

theorem unplaced_expect (owner : Nat) (index : UInt16) (expected : List Tag) :
    Unplaced (pool.expect owner index expected) :=
  (unplaced_entry _).bind fun _ => .ite (.pure ()) (.error id)

theorem unplaced_checkEntry (owner : Nat) (e : Entry) : Unplaced (pool.checkEntry owner e) := by
  have hone := fun index expected => pool.unplaced_expect owner index expected
  cases e with
  | utf8 | integer | float | long | double => exact .pure ()
  | classRef | string | methodType | moduleRef | packageRef => exact hone _ _
  | nameAndType | fieldRef | methodRef | interfaceMethodRef =>
      exact (hone _ _).bind fun _ => hone _ _
  | dynamic | invokeDynamic => exact hone _ _
  | methodHandle kind reference => exact .ite (hone _ _) (.error id)

theorem unplaced_check : Unplaced pool.check := by
  unfold check
  induction pool.entries with
  | nil => exact .pure ()
  | cons numbered rest ih => exact (unplaced_checkEntry _ _).bind fun _ => ih

end ConstantPool

theorem SignatureForm.unplaced_read {α : Type} (form : SignatureForm) (p : Parser α) (t : Text) :
    Unplaced (form.read p t) := by
  unfold SignatureForm.read
  cases p.readAll t with
  | some a => exact .pure a
  | none => exact .error id

/-! ### Constants -/

theorem Entry.decodeBody_accounts {start : Nat} (hstart : start ≤ size) (index : Nat) (tag : Tag) :
    Accounts size low (Entry.decodeBody start index tag) := by
  have hindex : ∀ make : UInt16 → Entry, Accounts size low (do return make (← u2)) :=
    fun make => (Accounts.u2 _).bind fun _ => .pure _
  have hpair : ∀ make : UInt16 → UInt16 → Entry,
      Accounts size low (do return make (← u2) (← u2)) :=
    fun make => (Accounts.u2 _).bind fun _ => (Accounts.u2 _).bind fun _ => .pure _
  cases tag with
  | utf8 =>
      refine (Accounts.u2 _).bind fun length => (Accounts.take _ _).bind fun bytes => ?_
      cases ModifiedUtf8.decode bytes with
      | some t => exact .pure _
      | none => exact .failAt hstart id
  | integer => exact (Accounts.i4 _).bind fun _ => .pure _
  | float => exact (Accounts.f4 _).bind fun _ => .pure _
  | long => exact (Accounts.i8 _).bind fun _ => .pure _
  | double => exact (Accounts.f8 _).bind fun _ => .pure _
  | methodHandle => exact (Accounts.u1 _).bind fun _ => (Accounts.u2 _).bind fun _ => .pure _
  | classRef | string | methodType | moduleRef | packageRef => exact hindex _
  | fieldRef | methodRef | interfaceMethodRef | nameAndType | dynamic | invokeDynamic =>
      exact hpair _

theorem Entry.decode_accounts (index count : Nat) :
    Accounts size low (Entry.decode index count) := by
  refine .atOffset fun start hstart => (Accounts.u1 _).bind fun code => ?_
  unfold Entry.decodeTagged
  cases Tag.ofCode? code with
  | none => exact .failAt hstart id
  | some tag => exact .ite (.failAt hstart id) (decodeBody_accounts hstart index tag)

theorem Entry.decodeMany_accounts (index left : Nat) :
    Accounts size low (Entry.decodeMany index left) := by
  fun_induction Entry.decodeMany index left with
  | case1 index => exact .pure _
  | case2 index left ih =>
      exact (decode_accounts _ _).bind fun e => (ih e).bind fun _ => .pure _

theorem ConstantPool.decode_accounts : Accounts size low ConstantPool.decode := by
  refine .atOffset fun start hstart => (Accounts.u2 _).bind fun count => ?_
  refine .ite (.failAt hstart id) ((Entry.decodeMany_accounts _ _).bind fun entries => ?_)
  exact (Accounts.ofResult unplaced_check).bind fun _ => .pure _

/-! ### Annotations -/

theorem ConstantPool.decodeText_accounts (item : String) :
    Accounts size low (pool.decodeText item) :=
  (Accounts.u2 _).bind fun _ => .ofResult (unplaced_utf8 _)

theorem Annotation.decodeWith_accounts {value : Decoder ElementValue}
    (h : Accounts size low value) : Accounts size low (decodeWith pool value) := by
  have helement : Accounts size low (Element.decodeWith pool value) :=
    (pool.decodeText_accounts _).bind fun _ => h.bind fun _ => .pure _
  refine (pool.decodeText_accounts _).bind fun type => (Accounts.u2 _).bind fun count => ?_
  exact (helement.times _).bind fun _ => .pure _

namespace ElementValue

theorem decodeBody_accounts {value : Decoder ElementValue} (h : Accounts size low value)
    {start : Nat} (hstart : start ≤ size) (tag : UInt8) :
    Accounts size low (decodeBody pool value start tag) := by
  unfold decodeBody
  split
  · exact (pool.decodeText_accounts _).bind fun _ => .pure _
  · refine (Accounts.u2 _).bind fun type => (Accounts.u2 _).bind fun name => ?_
    refine (Accounts.ofResult (ConstantPool.unplaced_utf8 _)).bind fun _ => ?_
    exact (Accounts.ofResult (ConstantPool.unplaced_utf8 _)).bind fun _ => .pure _
  · exact (pool.decodeText_accounts _).bind fun _ => .pure _
  · have hnested : Accounts size low ( Annotation.decodeWith pool value) :=
      Annotation.decodeWith_accounts h
    exact hnested.bind fun _ => .pure _
  · exact (Accounts.u2 _).bind fun count => (h.times _).bind fun _ => .pure _
  · split
    · refine (Accounts.u2 _).bind fun index => ?_
      exact (Accounts.ofResult (ConstantPool.unplaced_primitive _ _)).bind fun _ => .pure _
    · exact .failAt hstart id

/-- A bound on the depth that covers the rest of the input is used up only where that is. -/
theorem decodeWithin_accounts {n : Nat} (h : size ≤ low + n) :
    Accounts size low (decodeWithin pool n) := by
  induction n generalizing low with
  | zero =>
      intro c hc
      obtain ⟨hbehind, hmeasured⟩ := hc
      have hend : c.offset + 0 = size := by omega
      exact .error (.endOfInput _ hend Nat.zero_lt_one) c
  | succ n ih =>
      refine .atOffset fun start hstart => .afterByte fun tag => ?_
      exact decodeBody_accounts (ih (by omega)) hstart tag

end ElementValue

theorem Annotation.decode_accounts : Accounts size low (decode pool) := by
  intro c hc
  -- The bound is taken from the cursor, so nothing can be said before there is one.
  have hdepth : size ≤ c.offset + c.remaining := Nat.le_of_eq hc.measured.symm
  have hvalue : Accounts size c.offset (ElementValue.decodeWithin pool c.remaining) :=
    ElementValue.decodeWithin_accounts hdepth
  exact decodeWith_accounts hvalue c ⟨Nat.le_refl _, hc.measured⟩

/-! ### Attributes -/

namespace Attribute

variable {P : Type}

/-- A frame counts from its start, where the declared length was found to fit. -/
theorem framed_accounts {p : Decoder P} (h : Accounts size low p) (name : Text) (length : Nat) :
    Accounts size low (framed name length p) := by
  intro c hc
  show Accounted size c.offset ((if c.remaining < length then
      failAt c.offset (.attributeTruncated name length c.remaining)
    else p >>= fun a => offset >>= fun after =>
      if after - c.offset = length then pure ⟨name, length, a⟩
      else failAt c.offset (.attributeLength name length (after - c.offset)) :
    Decoder (Attribute P)) c)
  by_cases hshort : c.remaining < length
  · rw [if_pos hshort]
    exact .error (.attributeTruncated name hc.measured hshort) c
  · rw [if_neg hshort]
    refine (h c hc).bind fun a c' hc' => ?_
    show Accounted size c.offset ((if c'.offset - c.offset = length then pure ⟨name, length, a⟩
      else failAt c.offset (.attributeLength name length (c'.offset - c.offset)) :
      Decoder (Attribute P)) c')
    by_cases hsame : c'.offset - c.offset = length
    · rw [if_pos hsame]
      exact .ok _ hc'
    · rw [if_neg hsame]
      -- That the declared bytes are there was found out before anything was read.
      have hdeclared : c.offset + length ≤ size := by
        have := hc.measured
        omega
      have hconsumed : c.offset + (c'.offset - c.offset) ≤ size := by
        rw [Nat.add_sub_cancel' hc'.behind]
        exact hc'.offset_le
      exact .error (.attributeLength name (Ne.symm hsame) hdeclared hconsumed) c'

theorem decodeBy_accounts {table : PayloadTable P}
    (h : ∀ entry ∈ table, Accounts size low entry.2) (other : P) (name : Text) (length : Nat) :
    Accounts size low (decodeBy table other name length) := by
  unfold decodeBy
  cases hlookup : table.lookup name with
  | none => exact framed_accounts ((Accounts.skip _ _).bind fun _ => .pure other) name length
  | some p =>
      obtain ⟨front, back, rfl, -⟩ := List.lookup_eq_some_iff.mp hlookup
      exact framed_accounts (h (name, p) (by simp)) name length

theorem decodeList_accounts {α : Type} {body : Text → Nat → Decoder α}
    (h : ∀ name length, Accounts size low (body name length)) :
    Accounts size low (decodeList pool body) := by
  refine (Accounts.u2 _).bind fun count => .times ?_ _
  exact (pool.decodeText_accounts _).bind fun name => (Accounts.u4 _).bind fun length => h name _

end Attribute

theorem resolveOptional_accounts {resolve : Int → Except Fault Text}
    (h : ∀ i, Unplaced (resolve i)) (index : UInt16) :
    Accounts size low (resolveOptional resolve index) :=
  .ite (.pure none) ((Accounts.ofResult (h _)).bind fun _ => .pure _)

namespace Payload

theorem decodeConstantValue_accounts : Accounts size low (decodeConstantValue pool) :=
  (Accounts.u2 _).bind fun _ =>
    (Accounts.ofResult (ConstantPool.unplaced_literal _)).bind fun _ => .pure _

theorem decodeSignature_accounts {α : Type} {read : Text → Except Fault α}
    (h : ∀ t, Unplaced (read t)) : Accounts size low (decodeSignature pool read) := by
  refine (Accounts.u2 _).bind fun index => ?_
  refine (Accounts.ofResult (ConstantPool.unplaced_utf8 _)).bind fun text => ?_
  exact (Accounts.ofResult (h text)).bind fun _ => .pure _

theorem decodeSourceFile_accounts : Accounts size low (decodeSourceFile pool) :=
  (Accounts.u2 _).bind fun _ =>
    (Accounts.ofResult (ConstantPool.unplaced_utf8 _)).bind fun _ => .pure _

theorem decodeExceptions_accounts : Accounts size low (decodeExceptions pool) := by
  refine (Accounts.u2 _).bind fun count => ((Accounts.u2 _).times _).bind fun indices => ?_
  refine (Accounts.forM (fun index => ?_) indices).bind fun _ => .pure _
  exact (Accounts.ofResult (ConstantPool.unplaced_className _)).bind fun _ => .pure _

theorem decodeInnerClasses_accounts : Accounts size low (decodeInnerClasses pool) := by
  have hentry : Accounts size low (decodeInnerClass pool) := by
    refine (Accounts.u2 _).bind fun _ => (Accounts.u2 _).bind fun _ => ?_
    refine (Accounts.u2 _).bind fun _ => (Accounts.u2 _).bind fun _ => ?_
    refine (Accounts.ofResult (ConstantPool.unplaced_className _)).bind fun _ => ?_
    refine (resolveOptional_accounts ConstantPool.unplaced_className _).bind fun _ => ?_
    exact (resolveOptional_accounts ConstantPool.unplaced_utf8 _).bind fun _ => .pure _
  exact (Accounts.u2 _).bind fun count => (hentry.times _).bind fun _ => .pure _

theorem decodeMethodParameters_accounts : Accounts size low (decodeMethodParameters pool) := by
  have hentry : Accounts size low (decodeMethodParameter pool) := by
    refine (Accounts.u2 _).bind fun _ => (Accounts.u2 _).bind fun _ => ?_
    exact (resolveOptional_accounts ConstantPool.unplaced_utf8 _).bind fun _ => .pure _
  exact (Accounts.u1 _).bind fun count => (hentry.times _).bind fun _ => .pure _

theorem decodeAnnotations_accounts : Accounts size low (decodeAnnotations pool) := by
  have hitem : Accounts size low ( Annotation.decode pool) := Annotation.decode_accounts
  exact (Accounts.u2 _).bind fun _ => (hitem.times _).bind fun _ => .pure _

end Payload

namespace Code

theorem decodeAttribute_accounts (name : Text) (length : Nat) :
    Accounts size low (decodeAttribute name length) := by
  have hline : Accounts size low decodeLineNumber :=
    (Accounts.u2 _).bind fun _ => (Accounts.u2 _).bind fun _ => .pure _
  have hlines : Accounts size low decodeLineNumbers :=
    (Accounts.u2 _).bind fun _ => (hline.times _).bind fun _ => .pure _
  exact Attribute.decodeBy_accounts (List.forall_mem_singleton.mpr hlines) _ name length

theorem decode_accounts : Accounts size low (Code.decode pool) := by
  have hhandler : Accounts size low (decodeHandler pool) := by
    refine (Accounts.u2 _).bind fun _ => (Accounts.u2 _).bind fun _ => ?_
    refine (Accounts.u2 _).bind fun _ => (Accounts.u2 _).bind fun _ => ?_
    exact (resolveOptional_accounts ConstantPool.unplaced_className _).bind fun _ => .pure _
  refine (Accounts.u2 _).bind fun _ => (Accounts.u2 _).bind fun _ => ?_
  refine (Accounts.u4 _).bind fun length => (Accounts.pass _ _).bind fun instructions => ?_
  refine (Accounts.u2 _).bind fun count => (hhandler.times _).bind fun handlers => ?_
  exact (Attribute.decodeList_accounts decodeAttribute_accounts).bind fun _ => .pure _

end Code

/-! ### Owners -/

theorem OwnerKind.table_accounts (owner : OwnerKind) :
    ∀ entry ∈ owner.table pool, Accounts size low entry.2 := by
  have hannotations : Accounts size low (Payload.decodeAnnotations pool) :=
    Payload.decodeAnnotations_accounts
  cases owner with
  | ofClass =>
      simp only [table, sharedTable, List.forall_mem_cons]
      exact ⟨Payload.decodeSourceFile_accounts,
        Payload.decodeSignature_accounts (SignatureForm.unplaced_read _ _),
        Payload.decodeInnerClasses_accounts, hannotations, hannotations, List.forall_mem_nil _⟩
  | ofField =>
      simp only [table, sharedTable, List.forall_mem_cons]
      exact ⟨Payload.decodeConstantValue_accounts,
        Payload.decodeSignature_accounts (SignatureForm.unplaced_read _ _), hannotations,
        hannotations, List.forall_mem_nil _⟩
  | ofMethod =>
      simp only [table, sharedTable, List.forall_mem_cons]
      exact ⟨.map Code.decode_accounts, Payload.decodeExceptions_accounts,
        Payload.decodeSignature_accounts (SignatureForm.unplaced_read _ _),
        Payload.decodeMethodParameters_accounts, hannotations, hannotations,
        List.forall_mem_nil _⟩

theorem OwnerKind.decodeMarked_accounts (owner : OwnerKind) (name : Text) (length : Nat) :
    Accounts size low (owner.decodeMarked pool name length) :=
  .ite (.ite (.pure none) (.failHere id))
    (.map (Attribute.decodeBy_accounts owner.table_accounts _ name length))

theorem AttributeSet.decode_accounts (owner : OwnerKind) :
    Accounts size low (AttributeSet.decode pool owner) :=
  (Attribute.decodeList_accounts owner.decodeMarked_accounts).bind fun _ => .pure _

theorem Member.decode_accounts {α : Type} (owner : OwnerKind) (label : String)
    {read : Text → Except Fault α} (h : ∀ t, Unplaced (read t)) :
    Accounts size low (Member.decode pool owner label read) := by
  refine (Accounts.u2 _).bind fun _ => (Accounts.u2 _).bind fun _ => ?_
  refine (Accounts.u2 _).bind fun _ => ?_
  refine (Accounts.ofResult (ConstantPool.unplaced_utf8 _)).bind fun _ => ?_
  refine (Accounts.ofResult (ConstantPool.unplaced_utf8 _)).bind fun descriptor => ?_
  refine (Accounts.ofResult (h descriptor)).bind fun _ => ?_
  exact (AttributeSet.decode_accounts owner).bind fun _ => .pure _

theorem Field.decode_accounts : Accounts size low (Field.decode pool) :=
  (Member.decode_accounts _ _ (SignatureForm.unplaced_read _ _)).bind fun _ => .pure _

theorem Method.decode_accounts : Accounts size low (Method.decode pool) :=
  (Member.decode_accounts _ _ (SignatureForm.unplaced_read _ _)).bind fun _ => .pure _

/-! ### Class files -/

namespace ClassFile

theorem decodeHeader_accounts (policy : ReadPolicy) : Accounts size low (decodeHeader policy) := by
  refine .atOffset fun start hstart => (Accounts.u4 _).bind fun found => ?_
  refine .ite (.failAt hstart id) ((Accounts.u2 _).bind fun minor => ?_)
  refine .atOffset fun versionAt hversionAt => (Accounts.u2 _).bind fun major => ?_
  exact .ite (.pure ()) (.failAt hversionAt id)

theorem requireClass_accounts (index : UInt16) : Accounts size low (requireClass pool index) :=
  (Accounts.ofResult (ConstantPool.unplaced_get _ _)).bind fun _ => .pure ()

theorem checkSuperclass_accounts (accessFlags thisClass superclass : UInt16) :
    Accounts size low (checkSuperclass pool accessFlags thisClass superclass) := by
  refine .ite (.ofResult ?_) ((requireClass_accounts _).bind fun _ => .pure [])
  exact (ConstantPool.unplaced_className _).bind fun name => .ite (.pure []) (.pure _)

/-- **Reading the body of a class file accounts for the bytes of the file.** -/
theorem decodeBody_accounts (policy : ReadPolicy) : Accounts size low (decodeBody policy) := by
  refine (decodeHeader_accounts policy).bind fun _ => ?_
  refine ConstantPool.decode_accounts.bind fun pool => ?_
  refine (Accounts.u2 _).bind fun _ => (Accounts.u2 _).bind fun _ => ?_
  refine (Accounts.u2 _).bind fun _ => (requireClass_accounts _).bind fun _ => ?_
  refine (checkSuperclass_accounts _ _ _).bind fun anomalies => ?_
  refine (Accounts.u2 _).bind fun _ => ((Accounts.u2 _).times _).bind fun interfaces => ?_
  refine (Accounts.forM requireClass_accounts _).bind fun _ => ?_
  refine (Accounts.u2 _).bind fun _ => (Field.decode_accounts.times _).bind fun fields => ?_
  refine (Accounts.u2 _).bind fun _ => (Method.decode_accounts.times _).bind fun methods => ?_
  exact (AttributeSet.decode_accounts .ofClass).bind fun _ => .pure _

theorem decode_accounts (policy : ReadPolicy) : Accounts size low (decode policy) := by
  intro c hc
  refine (decodeBody_accounts policy c hc).bind fun x c' hc' => ?_
  show Accounted size c.offset ((if (decide (c'.remaining = 0) || policy.allowTrailing) = true
    then pure x else failHere (.trailingBytes c'.remaining) : Decoder ClassFile) c')
  by_cases hend : (decide (c'.remaining = 0) || policy.allowTrailing) = true
  · rw [if_pos hend]
    exact .ok x hc'
  · rw [if_neg hend]
    have hpos : 0 < c'.remaining := by
      refine Nat.pos_of_ne_zero fun hzero => hend ?_
      simp [hzero]
    exact .error (.trailingBytes hc'.measured hpos) c'

/-- A file is refused with a fault that is truthful about the file. -/
theorem truthful_of_ofBytes {policy : ReadPolicy} {bytes : List UInt8} {e : Fault}
    (h : ofBytes policy bytes = .error e) : e.Truthful bytes.length := by
  have hdecode := decode_accounts policy _ (Cursor.stands_start bytes)
  unfold ofBytes at h
  generalize decode policy (.start bytes) = r at h hdecode
  cases hdecode with
  | ok c => cases h
  | error he =>
      cases h
      exact he

/--
**What a fault reports about the file is true.**  Its offset lies in the file and stands at the
end of the message.  (a) Where the input ended too early, the bytes from the offset to the end
of the file are those reported as left, and fewer than were needed.  (b) The same goes for an
attribute that declares more than is left.  (c) Bytes that follow the class are counted from the
offset to the end.  (d) An attribute of the wrong length declares another number of bytes than
were decoded, and both of them end within the file; only a mark of deprecation is reported as
of the wrong length for being not empty.
-/
theorem ofBytes_error_truthful (policy : ReadPolicy) (bytes : List UInt8) (e : Fault)
    (h : ofBytes policy bytes = .error e) :
    (∀ o, e.offset = some o → o ≤ bytes.length ∧
      e.message = e.cause.text ++ .concat [" (at byte ", .ofNat o, ")"]) ∧
    (e.cause.kind = .endOfInput → ∃ needed item left o,
      e = .located (.endOfInput needed item left) o ∧ o + left = bytes.length ∧ left < needed ∧
      e.cause.text = .concat ["Need ", .ofNat needed, " byte(s) for ", item, ", only ",
        .ofNat left, " left"]) ∧
    (e.cause.kind = .truncatedAttribute → ∃ name declared left o,
      e = .located (.attributeTruncated name declared left) o ∧ o + left = bytes.length ∧
      left < declared ∧
      e.cause.text = .concat ["Attribute ", name, " declares ", .ofNat declared, " bytes, only ",
        .ofNat left, " left"]) ∧
    (e.cause.kind = .trailingData → ∃ count o,
      e = .located (.trailingBytes count) o ∧ o + count = bytes.length ∧ 0 < count ∧
      e.cause.text = .concat [.ofNat count, " byte(s) after the class attributes"]) ∧
    (e.cause.kind = .attributeLength → (∃ declared, e.cause = .markerNotEmpty declared) ∨
      ∃ name declared consumed o,
        e = .located (.attributeLength name declared consumed) o ∧ declared ≠ consumed ∧
        o + declared ≤ bytes.length ∧ o + consumed ≤ bytes.length ∧
        e.cause.text = .concat ["Attribute ", name, " declares ", .ofNat declared, " bytes but ",
          .ofNat consumed, " were decoded"]) := by
  have htruthful : e.Truthful bytes.length := truthful_of_ofBytes h
  refine ⟨?placed, ?endOfInput, ?truncated, ?trailing, ?length⟩
  case placed =>
    intro o ho
    refine ⟨htruthful.offset_le o ho, ?_⟩
    rw [Fault.message, ho]
    rfl
  case endOfInput =>
    intro hkind
    obtain ⟨needed, item, left, o, rfl, hleft, hlt⟩ := htruthful.of_endOfInput hkind
    exact ⟨needed, item, left, o, rfl, hleft, hlt, rfl⟩
  case truncated =>
    intro hkind
    obtain ⟨name, declared, left, o, rfl, hleft, hlt⟩ := htruthful.of_truncatedAttribute hkind
    exact ⟨name, declared, left, o, rfl, hleft, hlt, rfl⟩
  case trailing =>
    intro hkind
    obtain ⟨count, o, rfl, hcount, hpos⟩ := htruthful.of_trailingData hkind
    exact ⟨count, o, rfl, hcount, hpos, rfl⟩
  case length =>
    intro hkind
    rcases htruthful.of_attributeLength hkind with hmarker | ⟨name, declared, consumed, o, rfl, hcounts⟩
    · exact .inl hmarker
    · obtain ⟨hne, hdeclared, hconsumed⟩ := hcounts
      exact .inr ⟨name, declared, consumed, o, rfl, hne, hdeclared, hconsumed, rfl⟩

/-- A file that is cut within an attribute, and one in which a body takes more than it declares. -/
theorem ofBytes_error_truthful_code :
    let cut := everyAttribute.encode.take 340
    let overread := everyAttribute.encode.set 317 4
    (∃ e, ofBytes .standard cut = .error e ∧ e.offset = some 288 ∧
      288 + 52 = cut.length ∧ 52 < 58 ∧
      e.message = ("Attribute Code declares 58 bytes, only 52 left (at byte 288)" : Text)) ∧
    ∃ e, ofBytes .standard overread = .error e ∧ e.offset = some 288 ∧
      288 + 68 ≤ overread.length ∧
      e.message = ("Attribute Code declares 58 bytes but 68 were decoded (at byte 288)" : Text) := by
  intro cut overread
  have hcut : ofBytes .standard cut =
      .error (.located (.attributeTruncated "Code" 58 52) 288) := by decide +kernel
  have hoverread : ofBytes .standard overread =
      .error (.located (.attributeLength "Code" 58 68) 288) := by decide +kernel
  obtain ⟨-, -, htruncated, -⟩ := ofBytes_error_truthful .standard cut _ hcut
  obtain ⟨name, declared, left, o, heq, hleft, hlt, -⟩ := htruncated rfl
  cases heq
  obtain ⟨-, -, -, -, hlength⟩ := ofBytes_error_truthful .standard overread _ hoverread
  rcases hlength rfl with ⟨declared, heq⟩ | ⟨name, declared, consumed, o, heq, -, -, hconsumed, -⟩
  · cases heq
  · cases heq
    exact ⟨⟨_, hcut, rfl, hleft, hlt, by decide +kernel⟩,
      ⟨_, hoverread, rfl, hconsumed, by decide +kernel⟩⟩

end ClassFile

end ClassFormat
