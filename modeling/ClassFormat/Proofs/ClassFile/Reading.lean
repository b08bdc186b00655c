/-
Class files are read from their layouts.

Everything up to the attributes of the class is a string of the format, whatever
follows.  Only the last step looks at what is left.
-/
import ClassFormat.Proofs.AccessFlags
import ClassFormat.Proofs.Attribute.Owners
import ClassFormat.Proofs.ClassFile.Layout

namespace ClassFormat

open Decoder

variable {pool : ConstantPool}

/-! ### Members -/

theorem Member.reads_decode {α : Type} {read : Text → Except Fault α} {form : SignatureForm}
    (hp : pool.Linked) (owner : OwnerKind) (label : String)
    (hread : ∀ t, (∃ a, read t = .ok a) ↔ form.Accepts t) :
    (Member.decode pool owner label read).Reads
      (written (MemberLayout.WellFormed pool SignatureForm.Accepts owner form)
        MemberLayout.encode (MemberLayout.view pool Annotation.merge)) := by
  refine ((reads_u2 _).seq fun accessFlags _ => (reads_u2 _).seq fun nameIndex _ =>
    (reads_u2 _).seq fun descriptorIndex _ =>
    Reads.resolve (ConstantPool.settles_utf8 nameIndex) fun _ =>
    Reads.resolve (ConstantPool.settles_utf8 descriptorIndex) fun _ =>
    Reads.require (hread (pool.textAt descriptorIndex))
      ((AttributeSet.reads_decode hp owner).map
        (Member.mk accessFlags nameIndex descriptorIndex))).rebuild
          (fun z => ⟨z.1, z.2.1, z.2.2.1, z.2.2.2⟩) ?_ ?_
  · intro z h
    obtain ⟨-, -, -, hname, hdescriptor, hdescribed, hattributes⟩ := h
    exact ⟨⟨hname, hdescriptor, hdescribed, hattributes⟩, rfl, rfl⟩
  · intro x hok
    exact ⟨(x.accessFlags, x.nameIndex, x.descriptorIndex, x.attributes),
      ⟨trivial, trivial, trivial, hok.name, hok.descriptor, hok.described, hok.attributes⟩, rfl⟩

theorem Field.reads_decode (hp : pool.Linked) :
    (Field.decode pool).Reads
      (written (MemberLayout.WellFormed pool SignatureForm.Accepts .ofField .fieldDescriptor)
        MemberLayout.encode fun m => ⟨m.view pool Annotation.merge⟩) :=
  (Member.reads_decode hp .ofField "field" fun _ => Iff.rfl).map Field.mk

theorem Method.reads_decode (hp : pool.Linked) :
    (Method.decode pool).Reads
      (written (MemberLayout.WellFormed pool SignatureForm.Accepts .ofMethod .methodDescriptor)
        MemberLayout.encode fun m => ⟨m.view pool Annotation.merge⟩) :=
  (Member.reads_decode hp .ofMethod "method" fun _ => Iff.rfl).map Method.mk

/-! ### Classes -/

namespace ClassFile

variable {policy : ReadPolicy}

/-- The two version numbers, of which the major one decides. -/
theorem reads_decodeHeader :
    (decodeHeader policy).Reads
      (written (fun v : UInt16 × UInt16 =>
          policy.lowestMajor ≤ v.2.toNat ∧ v.2.toNat ≤ policy.highestMajor)
        (fun v => Encoder.u4 0xCAFEBABE ++ (Encoder.u2 v.1 ++ Encoder.u2 v.2)) fun _ => ()) := by
  unfold decodeHeader
  simp only [ne_eq, ite_not]
  refine (Reads.atOffset fun start => (reads_u4 "magic").seq fun found _ =>
    Reads.guarded (failAt_ne_ok start (.badMagic found)) fun _ =>
    (reads_u2 "minor_version").seq fun minor _ => Reads.atOffset fun versionAt =>
    (reads_u2 "major_version").seq fun major _ =>
    Reads.guarded (failAt_ne_ok versionAt _) fun _ => reads_pure ()).rebuild
      (fun z => (z.2.1, z.2.2.1)) ?_ ?_
  · intro z h
    obtain ⟨found, minor, major, ⟨⟩⟩ := z
    obtain ⟨-, hmagic, -, -, hversion, -⟩ := h
    have hmagic' : found = magic := hmagic
    refine ⟨(policy.accepts_iff _).mp hversion, ?_, rfl⟩
    show _ = Encoder.u4 found ++ (Encoder.u2 minor ++ (Encoder.u2 major ++ []))
    rw [List.append_nil, hmagic']
    rfl
  · intro v hversion
    have haccepts := (policy.accepts_iff v.2.toNat).mpr hversion
    exact ⟨(magic, v.1, v.2, ()), ⟨trivial, rfl, trivial, trivial, haccepts, trivial⟩, rfl⟩

theorem reads_requireClass (index : UInt16) :
    (requireClass pool index).Reads
      (written (fun _ : Unit => pool.RefersTo index [.classRef]) (fun _ => []) fun _ => ()) := by
  have hget : (∃ e, pool.get index.toNat [.classRef] = .ok e) ↔
      pool.RefersTo index [.classRef] := by
    rw [ConstantPool.refersTo_iff]
    exact exists_congr fun e => ConstantPool.get_ok_iff (List.cons_ne_nil _ _)
  refine (Reads.require hget (reads_pure ())).reshape ?_ ?_
  · intro _ h
    obtain ⟨hindex, -⟩ := h
    exact ⟨(), hindex, rfl, rfl⟩
  · intro _ hindex
    exact ⟨(), ⟨hindex, trivial⟩, rfl, rfl⟩

/-- The anomalies of a class whose name is known to be there. -/
theorem settles_superclassAnomalies {pool : ConstantPool} {accessFlags thisClass : UInt16}
    (hp : pool.Linked) (hthis : pool.RefersTo thisClass [.classRef]) :
    Settles (superclassAnomalies pool accessFlags thisClass) True
      (if pool.classNameAt thisClass ≠ "java/lang/Object" ∧
          accessFlags.toNat.testBit 15 = false then
        [.noSuperclass (pool.classNameAt thisClass)]
      else []) := by
  have hname := (ConstantPool.settles_className hp thisClass _).mpr ⟨hthis, rfl⟩
  intro b
  unfold superclassAnomalies
  rw [hname, AccessFlags.has_ofUInt16]
  show (if (decide (pool.classNameAt thisClass = "java/lang/Object") ||
      accessFlags.toNat.testBit 15) = true then .ok []
    else .ok [.noSuperclass (pool.classNameAt thisClass)] : Except Fault (List Anomaly)) = .ok b ↔ _
  by_cases hroot : pool.classNameAt thisClass = "java/lang/Object"
  · simp [hroot]
  · cases hmodule : accessFlags.toNat.testBit 15 with
    | true => simp
    | false => simp [hroot]

theorem reads_checkSuperclass (hp : pool.Linked) (accessFlags thisClass superclass : UInt16)
    (hthis : pool.RefersTo thisClass [.classRef]) :
    (checkSuperclass pool accessFlags thisClass superclass).Reads
      (written (fun _ : Unit => pool.MayReferTo superclass [.classRef]) (fun _ => []) fun _ =>
        if superclass = 0 ∧ pool.classNameAt thisClass ≠ "java/lang/Object" ∧
            accessFlags.toNat.testBit 15 = false then
          [.noSuperclass (pool.classNameAt thisClass)]
        else []) := by
  unfold checkSuperclass ConstantPool.MayReferTo
  by_cases hzero : superclass = 0
  · simp only [hzero, if_true, true_and]
    refine (reads_ofResult (settles_superclassAnomalies hp hthis)).reshape ?_ ?_
    · intro _ _
      exact ⟨(), fun h => absurd rfl h, rfl, rfl⟩
    · intro _ _
      exact ⟨(), trivial, rfl, rfl⟩
  · simp only [hzero, if_false, false_and]
    refine ((reads_requireClass superclass).map fun _ => []).reshape ?_ ?_
    · intro _ href
      exact ⟨(), fun _ => href, rfl, rfl⟩
    · intro _ href
      exact ⟨(), href hzero, rfl, rfl⟩

theorem reads_decodeBody :
    (decodeBody policy).Reads
      (written (ClassLayout.WellFormed policy SignatureForm.Accepts) ClassLayout.encode
        (ClassLayout.view Annotation.merge)) := by
  refine (reads_decodeHeader.seq fun version _ =>
    ConstantPool.reads_decode.seq fun constants hconstants =>
    (reads_u2 "access_flags").seq fun accessFlags _ => (reads_u2 "this_class").seq
    fun thisClass _ => (reads_u2 "super_class").seq fun superclass _ =>
    (reads_requireClass thisClass).seq fun _ hthis =>
    (reads_checkSuperclass hconstants.linked accessFlags thisClass superclass hthis).seq
    fun _ _ => Reads.seqCounted (reads_u2 "interface index") "interfaces_count"
    fun interfaces _ => (reads_forM reads_requireClass (interfaces.map id)).seq
    fun _ _ => Reads.seqCounted (Field.reads_decode hconstants.linked) "fields_count"
    fun fields _ => Reads.seqCounted (Method.reads_decode hconstants.linked) "methods_count"
    fun methods _ => (AttributeSet.reads_decode hconstants.linked .ofClass).map _).reshape ?_ ?_
  · intro z h
    obtain ⟨⟨minor, major⟩, constants, accessFlags, thisClass, superclass, ⟨⟩, ⟨⟩, interfaces,
      ⟨⟩, fields, methods, attributes⟩ := z
    obtain ⟨hversion, hconstants, -, -, -, hthis, hsuper, hcount, hinterfaces, hfields, hmethods,
      hattributes⟩ := h
    have hinterfaces' : ∀ i ∈ interfaces.map id,
        (PoolLayout.view constants).RefersTo i [.classRef] := hinterfaces
    rw [List.map_id] at hinterfaces'
    refine ⟨⟨minor, major, constants, accessFlags, thisClass, superclass, interfaces, fields,
      methods, attributes⟩, ⟨hversion, hconstants, hthis, hsuper, hcount.1, hinterfaces',
        hfields.1, hfields.2, hmethods.1, hmethods.2, hattributes⟩, rfl, ?_⟩
    simp only [List.map_id]
    rfl
  · intro x hok
    have hinterfaces : ∀ i ∈ x.interfaces.map id, x.pool.RefersTo i [.classRef] := by
      rw [List.map_id]
      exact hok.interfaces
    refine ⟨((x.minor, x.major), x.constants, x.accessFlags, x.thisClass, x.superclass, (), (),
      x.interfaces, (), x.fields, x.methods, x.attributes), ⟨hok.version, hok.constants, trivial,
        trivial, trivial, hok.thisClass, hok.superclass,
        ⟨hok.interfaceCount, fun _ _ => trivial⟩, hinterfaces, ⟨hok.fieldCount, hok.fields⟩,
        ⟨hok.methodCount, hok.methods⟩, hok.attributes⟩, rfl, ?_⟩
    simp only [List.map_id]
    rfl

end ClassFile

end ClassFormat
