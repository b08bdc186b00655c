/-
Bytes that have no say in how a class file is read.

Some of the bytes of a class file are passed over: the payloads of attributes whose names
their owners do not know, and the instructions of method bodies, which are kept as they
are.  The reader remembers where they were, also if it stops with a fault.  Two files that
are the same outside of these bytes are accepted or refused alike: the fault is the same,
or the classes are the same once their instructions are blanked out.
-/
import ClassFormat.Proofs.Bytes.Uninterpreted
import ClassFormat.Proofs.ClassFile.Congruence
import ClassFormat.Proofs.ClassFile.RoundTrip

namespace ClassFormat

/-- The inputs are of one length, and the same outside of the given stretches. -/
structure AgreeOutside (spans : List Span) (bytes bytes' : List UInt8) : Prop where
  length : bytes'.length = bytes.length
  same : ∀ i, (∀ s ∈ spans, ¬ s.Covers i) → bytes[i]? = bytes'[i]?

namespace AgreeOutside

variable {spans : List Span} {bytes bytes' bytes'' : List UInt8}

theorem refl (spans : List Span) (bytes : List UInt8) : AgreeOutside spans bytes bytes :=
  ⟨rfl, fun _ _ => rfl⟩

theorem trans (h : AgreeOutside spans bytes bytes') (h' : AgreeOutside spans bytes' bytes'') :
    AgreeOutside spans bytes bytes'' :=
  ⟨h'.length.trans h.length, fun i hi => (h.same i hi).trans (h'.same i hi)⟩

/-- One more byte within the stretches may be another. -/
theorem set (h : AgreeOutside spans bytes bytes') {i : Nat} (b : UInt8)
    (hi : ∃ s ∈ spans, s.start ≤ i ∧ i < s.start + s.size) :
    AgreeOutside spans bytes (bytes'.set i b) := by
  refine h.trans ⟨List.length_set, fun j hj => ?_⟩
  obtain ⟨s, hs, hcovers⟩ := hi
  have hne : i ≠ j := by
    rintro rfl
    exact hj s hs hcovers
  exact (List.getElem?_set_ne hne).symm

/-- The starts of two such inputs agree up to wherever the stretches were passed over. -/
theorem agreeTo {k : Cursor} (h : AgreeOutside k.passed bytes bytes') :
    (Cursor.start bytes).AgreeTo (.start bytes') k :=
  fun i _ _ hclear => h.same i hclear

theorem beside (h : AgreeOutside spans bytes bytes') :
    (Cursor.start bytes).Beside (.start bytes') :=
  ⟨rfl, h.length, rfl, List.forall_mem_nil _⟩

end AgreeOutside

namespace ClassFile

open Decoder

/-- The class with zeros for instructions. -/
def blank (c : ClassFile) : ClassFile :=
  c.mapInstructions Alike.blank

/--
The stretches of a file that are not interpreted when it is read, up to where the reading
ends: payloads of attributes with unknown names, and instructions.
-/
def passedOver (policy : ReadPolicy) (bytes : List UInt8) : List Span :=
  ((decode policy).cursorAfter (.start bytes)).passed

/-- Reading a file is indifferent to what it passes over, also at the end of the class. -/
theorem alike_decode (policy : ReadPolicy) :
    Alike (fun c d : ClassFile => c.blank = d.blank) (decode policy) (decode policy) := by
  let L := indifference
  refine L.bind (decodeBody_respects L policy) fun c d hcd => L.bind L.remaining fun n m hnm => ?_
  subst hnm
  exact L.ite (L.pure hcd) (L.failHere _)

/--
**Bytes that are not interpreted have no influence.**  If two files differ only in bytes
that reading the first one passes over, then both are refused with the same fault, or both
give the same class but for the bytes of instructions; and the same bytes are passed over.
-/
theorem ofBytes_indifferent (policy : ReadPolicy) (bytes bytes' : List UInt8)
    (h : AgreeOutside (passedOver policy bytes) bytes bytes') :
    (ofBytes policy bytes').map blank = (ofBytes policy bytes).map blank ∧
      passedOver policy bytes' = passedOver policy bytes := by
  have hruns := (alike_decode policy).runs h.beside h.agreeTo
  unfold ofBytes passedOver cursorAfter
  generalize decode policy (.start bytes) = r at hruns
  generalize decode policy (.start bytes') = r' at hruns
  cases hruns with
  | ok hsame hplace => exact ⟨congrArg Except.ok hsame.symm, hplace.passed⟩
  | error e hplace => exact ⟨rfl, hplace.passed⟩

/-- Other instructions, and other payloads that only the method body and the class have. -/
theorem ofBytes_indifferent_everyAttribute :
    let bytes := everyAttribute.encode
    let bytes' := (((bytes.set 296 0).set 338 0xFE).set 345 0).set 401 7
    AgreeOutside (passedOver .standard bytes) bytes bytes' ∧
      (ofBytes .standard bytes').map blank =
        .ok (blank (everyAttribute.view Annotation.merge)) := by
  intro bytes bytes'
  have hpassed : passedOver .standard bytes = [⟨401, 1⟩, ⟨345, 1⟩, ⟨336, 3⟩, ⟨296, 2⟩] := by
    decide +kernel
  have hagree : AgreeOutside (passedOver .standard bytes) bytes bytes' := by
    rw [hpassed]
    refine ((((AgreeOutside.refl _ bytes).set 0 ?_).set 0xFE ?_).set 0 ?_).set 7 ?_
    all_goals decide
  refine ⟨hagree, ?_⟩
  rw [(ofBytes_indifferent .standard bytes bytes' hagree).1]
  exact congrArg (Except.map blank) ofBytes_everyAttribute

end ClassFile

end ClassFormat
