/-
Reading an input in single steps, some of which fail.

A step needs a number of bytes.  If they are there it covers them, and what it reads is a
number that these bytes stand for, or the bytes themselves; if not, it leaves everything as
it was.  `Exact` says this of one step, and from it follows what a session does: the bytes
that the successful steps covered make up the front of the input, and the steps that failed
might as well not have been there.

The numbers are described without reference to how they are computed: `unsigned` weighs the
bytes with the powers of 256, and in `signed` the topmost bit counts negatively.
-/
import ClassFormat.Bytes.Session
import ClassFormat.Proofs.Bytes.Uninterpreted
import Mathlib.Data.Nat.Digits.Defs

namespace ClassFormat

/-! ### Numbers -/

/-- The number whose digits to the base 256 are the bytes, the last of which is the lowest. -/
def unsigned (w : List UInt8) : Nat :=
  Nat.ofDigits 256 (w.reverse.map UInt8.toNat)

/-- The number of the bytes in two's complement. -/
def signed (w : List UInt8) : Int :=
  if 2 * unsigned w < 256 ^ w.length then unsigned w
  else (unsigned w : Int) - (256 ^ w.length : Nat)

theorem bigEndian_eq_unsigned (w : List UInt8) : bigEndian w = unsigned w := by
  unfold unsigned
  induction w using List.reverseRecOn with
  | nil => rfl
  | append_singleton w b ih =>
      rw [bigEndian_append_singleton, ih, List.reverse_concat, List.map_cons, Nat.ofDigits_cons]
      omega

theorem unsigned_lt (w : List UInt8) : unsigned w < 256 ^ w.length :=
  bigEndian_eq_unsigned w ▸ bigEndian_lt w

/-- A remainder that is brought into the range around zero is a number in two's complement. -/
theorem bmod_unsigned {w : List UInt8} {size : Nat} (hsize : 256 ^ w.length = size)
    (heven : size % 2 = 0) : (unsigned w : Int).bmod size = signed w := by
  have hlt := unsigned_lt w
  rw [hsize] at hlt
  unfold signed
  rw [hsize, Int.bmod_def, Int.emod_eq_of_lt (by omega) (by omega)]
  by_cases h : 2 * unsigned w < size
  · rw [if_pos h, if_pos (by omega)]
  · rw [if_neg h, if_neg (by omega)]

example : signed [0x80, 0, 0, 0] = -0x80000000 := by decide

/-! ### One step -/

open Decoder

/-- Whether the step gave something. -/
def StepRecord.succeeded (r : StepRecord) : Bool :=
  r.outcome.isOk

namespace ReadStep

variable {step : ReadStep} {c : Cursor}

/-- The item that a fault of the step names. -/
def item : ReadStep → String
  | u1 item | u2 item | u4 item | i4 item | i8 item | f4 item | f8 item => item
  | bytes _ item | skip _ item => item
  | atEnd => ""

/-- What the step reads off the bytes that it covers, when so many were left. -/
def interpret (w : List UInt8) (left : Nat) : ReadStep → Reading
  | u1 _ | u2 _ | u4 _ => .integer (unsigned w)
  | i4 _ | i8 _ => .integer (signed w)
  | f4 _ => .float (Binary32.mk (.ofNat (unsigned w))).widen
  | f8 _ => .float ⟨.ofNat (unsigned w)⟩
  | bytes .. => .bytes w
  | skip .. => .nothing
  | atEnd => .truth (left = 0)

/-- All there is to know about a step that was taken at a cursor. -/
structure Exact (step : ReadStep) (c : Cursor) (r : StepRecord) : Prop where
  /-- It fails exactly if it needs more bytes than there are. -/
  fails : r.succeeded = false ↔ c.remaining < step.size
  /-- A failure says so and changes nothing. -/
  failure : ∀ e, r.outcome = .error e → r.cursor = c ∧
    e = .located (.endOfInput step.size step.item c.remaining) c.offset
  /-- A success moves on by the size of the step and reads the bytes that it covers. -/
  success : ∀ a, r.outcome = .ok a → r.cursor.offset = c.offset + step.size ∧
    r.cursor.rest = c.rest.drop step.size ∧
    a = step.interpret (c.rest.take step.size) c.remaining

/-- The step, taken at a cursor. -/
def record (step : ReadStep) (c : Cursor) : StepRecord :=
  match step.run c with
  | .ok a c' => ⟨.ok a, c'⟩
  | .error e c' => ⟨.error e, c'⟩

section Numbers

variable {α : Type} {make : List UInt8 → α} {view : α → Reading} {size : Nat} {item : String}

theorem number_of_ok {w : List UInt8} {c' : Cursor} (h : take size item c = .ok w c') :
    ((take size item >>= fun bytes => pure (make bytes)) >>= fun a => pure (view a)) c =
      .ok (view (make w)) c' := by
  have hnumber : (take size item >>= fun bytes => pure (make bytes)) c = .ok (make w) c' := by
    rw [bind_of_ok h]
    rfl
  rw [bind_of_ok hnumber]
  rfl

theorem number_of_error {e : Fault} {c' : Cursor} (h : take size item c = .error e c') :
    ((take size item >>= fun bytes => pure (make bytes)) >>= fun a => pure (view a)) c =
      .error e c' :=
  bind_of_error (bind_of_error h)

end Numbers

/-- A step that has its bytes covers them and reads what they stand for. -/
theorem run_of_le (h : step.size ≤ c.remaining) :
    ∃ spans, step.run c =
      .ok (step.interpret (c.rest.take step.size) c.remaining) (c.moved step.size spans) := by
  have hlen : (c.rest.take step.size).length = step.size := List.length_take_of_le h
  have hlt := unsigned_lt (c.rest.take step.size)
  have htake := fun item => take_of_le item h
  have hpass := fun item => pass_of_le item h
  -- Nothing but these bytes and their number has a say in what is read.
  generalize c.rest.take step.size = w at hlen hlt htake hpass ⊢
  rw [hlen] at hlt
  cases step with
  | u1 item =>
      refine ⟨[], (number_of_ok (htake item)).trans ?_⟩
      rw [bigEndian_eq_unsigned, UInt8.toNat_ofNat_of_lt' hlt]
      rfl
  | u2 item =>
      refine ⟨[], (number_of_ok (htake item)).trans ?_⟩
      rw [bigEndian_eq_unsigned, UInt16.toNat_ofNat_of_lt' hlt]
      rfl
  | u4 item =>
      refine ⟨[], (number_of_ok (htake item)).trans ?_⟩
      rw [bigEndian_eq_unsigned, UInt32.toNat_ofNat_of_lt' hlt]
      rfl
  | i4 item =>
      refine ⟨[], (number_of_ok (htake item)).trans ?_⟩
      have hsize : 256 ^ w.length = Int32.size := by rw [hlen]; rfl
      rw [bigEndian_eq_unsigned, Int32.toInt_ofNat', bmod_unsigned hsize rfl]
      rfl
  | i8 item =>
      refine ⟨[], (number_of_ok (htake item)).trans ?_⟩
      have hsize : 256 ^ w.length = Int64.size := by rw [hlen]; rfl
      rw [bigEndian_eq_unsigned, Int64.toInt_ofNat', bmod_unsigned hsize rfl]
      rfl
  | f4 item =>
      refine ⟨[], (number_of_ok (htake item)).trans ?_⟩
      rw [bigEndian_eq_unsigned]
      rfl
  | f8 item =>
      refine ⟨[], (number_of_ok (htake item)).trans ?_⟩
      rw [bigEndian_eq_unsigned]
      rfl
  | bytes n item =>
      refine ⟨[], ?_⟩
      show (take n item >>= fun bytes => pure (Reading.bytes bytes)) c = _
      exact (bind_of_ok (htake item)).trans rfl
  | skip n item =>
      refine ⟨[⟨c.offset, n⟩], ?_⟩
      show ((pass n item >>= fun _ => pure ()) >>= fun _ => pure Reading.nothing) c = _
      have hskip : (pass n item >>= fun _ => pure ()) c = .ok () (c.moved n [⟨c.offset, n⟩]) :=
        bind_of_ok (hpass item)
      exact (bind_of_ok hskip).trans rfl
  | atEnd =>
      refine ⟨[], ?_⟩
      obtain ⟨offset, rest, passed⟩ := c
      cases rest with
      | nil => rfl
      | cons b rest => rfl

/-- A step that lacks bytes says so. -/
theorem run_of_lt (h : c.remaining < step.size) :
    step.run c = .error (.located (.endOfInput step.size step.item c.remaining) c.offset) c := by
  have htake := fun item => take_of_lt item h
  have hpass := fun item => pass_of_lt item h
  cases step with
  | u1 item | u2 item | u4 item | i4 item | i8 item | f4 item | f8 item =>
      exact number_of_error (htake item)
  | bytes n item => exact bind_of_error (htake item)
  | skip n item => exact bind_of_error (bind_of_error (hpass item))
  | atEnd => exact absurd h (Nat.not_lt_zero _)

theorem record_of_run {r : Reading} {c' : Cursor} (h : step.run c = .ok r c') :
    step.record c = ⟨.ok r, c'⟩ := by
  rw [record, h]

theorem record_of_fault {e : Fault} {c' : Cursor} (h : step.run c = .error e c') :
    step.record c = ⟨.error e, c'⟩ := by
  rw [record, h]

/-- Every step is exact, wherever it is taken. -/
theorem record_exact (step : ReadStep) (c : Cursor) : step.Exact c (step.record c) := by
  by_cases h : step.size ≤ c.remaining
  · obtain ⟨spans, hrun⟩ := run_of_le h
    rw [record_of_run hrun]
    constructor
    · exact ⟨fun hfailed => (Bool.noConfusion hfailed), fun hlt => absurd h (Nat.not_le.mpr hlt)⟩
    · intro e he
      cases he
    · intro a ha
      cases ha
      exact ⟨rfl, rfl, rfl⟩
  · have hlt : c.remaining < step.size := Nat.not_le.mp h
    rw [record_of_fault (run_of_lt hlt)]
    constructor
    · exact ⟨fun _ => hlt, fun _ => rfl⟩
    · intro e he
      cases he
      exact ⟨rfl, rfl⟩
    · intro a ha
      cases ha

namespace Exact

variable {r : StepRecord}

theorem cursor_of_failed (h : step.Exact c r) (hr : r.succeeded = false) : r.cursor = c := by
  obtain ⟨outcome, c'⟩ := r
  cases outcome with
  | error e => exact (h.failure e rfl).1
  | ok a => cases hr

theorem cursor_of_succeeded (h : step.Exact c r) (hr : r.succeeded = true) :
    r.cursor.offset = c.offset + step.size ∧ r.cursor.rest = c.rest.drop step.size := by
  obtain ⟨outcome, c'⟩ := r
  cases outcome with
  | error e => cases hr
  | ok a => exact ⟨(h.success a rfl).1, (h.success a rfl).2.1⟩

theorem size_le (h : step.Exact c r) (hr : r.succeeded = true) : step.size ≤ c.remaining := by
  by_contra hlt
  rw [h.fails.mpr (Nat.not_le.mp hlt)] at hr
  cases hr

end Exact

end ReadStep

/-! ### Runs -/

/-- The cursors of a session: where it starts, and where each step leaves it. -/
def stops (c : Cursor) (records : List StepRecord) : List Cursor :=
  c :: records.map StepRecord.cursor

/-- The steps that gave something, with their records. -/
def successes (steps : List ReadStep) (records : List StepRecord) :
    List (ReadStep × StepRecord) :=
  (steps.zip records).filter fun p => p.2.succeeded

/-- The bytes of the input that a step covered which gave something. -/
def covered (bytes : List UInt8) (p : ReadStep × StepRecord) : List UInt8 :=
  (bytes.drop (p.2.cursor.offset - p.1.size)).take p.1.size

/-- The cursor stands where the given successful steps have led from the start of the input. -/
structure Cursor.After (bytes : List UInt8) (earlier : List (ReadStep × StepRecord))
    (c : Cursor) : Prop where
  /-- Its offset is the sum of their sizes. -/
  offset_eq : c.offset = (earlier.map fun p => p.1.size).sum
  offset_le : c.offset ≤ bytes.length
  /-- They have covered everything that comes before it. -/
  covers : earlier.flatMap (covered bytes) = bytes.take c.offset
  /-- All the others are still to be read. -/
  rest_eq : c.rest = bytes.drop c.offset

section

variable {step : ReadStep} {steps : List ReadStep} {c c' : Cursor} {bytes : List UInt8}
  {earlier : List (ReadStep × StepRecord)}

theorem successes_cons (r : StepRecord) (records : List StepRecord) :
    successes (step :: steps) (r :: records) =
      (if r.succeeded then [(step, r)] else []) ++ successes steps records := by
  unfold successes
  rw [List.zip_cons_cons, List.filter_cons]
  cases r.succeeded with
  | false => rfl
  | true => rfl

theorem Cursor.after_start (bytes : List UInt8) : (Cursor.start bytes).After bytes [] :=
  ⟨rfl, Nat.zero_le _, rfl, rfl⟩

/-- What one step adds to what was covered. -/
theorem Cursor.After.advance {r : StepRecord} (h : c.After bytes earlier) (hr : step.Exact c r) :
    r.cursor.After bytes (earlier ++ if r.succeeded then [(step, r)] else []) := by
  cases hs : r.succeeded with
  | false =>
      rw [hr.cursor_of_failed hs, if_neg Bool.false_ne_true, List.append_nil]
      exact h
  | true =>
      obtain ⟨hoffset, hrest⟩ := hr.cursor_of_succeeded hs
      have hle : step.size ≤ bytes.length - c.offset := by
        have hsize := hr.size_le hs
        rwa [Cursor.remaining, h.rest_eq, List.length_drop] at hsize
      have hfront := h.offset_le
      rw [if_pos rfl]
      constructor
      · rw [hoffset, h.offset_eq, List.map_append, List.sum_append, List.map_singleton,
          List.sum_singleton]
      · omega
      · rw [List.flatMap_append, List.flatMap_singleton, h.covers, covered, hoffset,
          Nat.add_sub_cancel, List.take_add]
      · rw [hrest, h.rest_eq, hoffset, List.drop_drop]

theorem session_cons (step : ReadStep) (steps : List ReadStep) (c : Cursor) :
    session (step :: steps) c = step.record c :: session steps (step.record c).cursor := by
  rw [session, ReadStep.record]
  cases step.run c with
  | ok a c' => rfl
  | error e c' => rfl

theorem length_session (steps : List ReadStep) (c : Cursor) :
    (session steps c).length = steps.length := by
  induction steps generalizing c with
  | nil => rfl
  | cons step steps ih =>
      rw [session_cons, List.length_cons, List.length_cons, ih]

/-- Each step of a session is taken where the one before it ended. -/
theorem session_getElem? {i : Nat} (hstep : steps[i]? = some step) :
    ∃ before, (stops c (session steps c))[i]? = some before ∧
      (session steps c)[i]? = some (step.record before) := by
  induction steps generalizing c i with
  | nil => cases hstep
  | cons first steps ih =>
      rw [session_cons]
      cases i with
      | zero =>
          cases hstep
          exact ⟨c, rfl, rfl⟩
      | succ i => exact ih hstep

/-- Wherever a session stops, the successful steps so far have led there. -/
theorem Cursor.After.run {i : Nat} (h : c.After bytes earlier)
    (hstop : (stops c (session steps c))[i]? = some c') :
    c'.After bytes (earlier ++ successes (steps.take i) ((session steps c).take i)) := by
  induction steps generalizing c earlier i with
  | nil =>
      cases i with
      | zero =>
          cases hstop
          exact (List.append_nil earlier).symm ▸ h
      | succ i => cases hstop
  | cons step steps ih =>
      cases i with
      | zero =>
          cases hstop
          exact (List.append_nil earlier).symm ▸ h
      | succ i =>
          rw [session_cons] at hstop ⊢
          rw [List.take_succ_cons, List.take_succ_cons, successes_cons, ← List.append_assoc]
          exact ih (h.advance (step.record_exact c)) hstop

/-- Without the steps that fail, the others give the same. -/
theorem session_successes (steps : List ReadStep) (c : Cursor) :
    session ((successes steps (session steps c)).map Prod.fst) c =
      (successes steps (session steps c)).map Prod.snd := by
  induction steps generalizing c with
  | nil => rfl
  | cons step steps ih =>
      rw [session_cons, successes_cons]
      cases hs : (step.record c).succeeded with
      | false =>
          rw [(step.record_exact c).cursor_of_failed hs]
          exact ih c
      | true =>
          rw [if_pos rfl, List.singleton_append, List.map_cons, List.map_cons,
            session_cons, ih]

end

/--
A session over an input, whatever its steps are and however many of them fail.  There is a
record of each step, which is exact at the cursor where the step before ended.  Wherever the
session stops, the offset is the sum of the sizes of the steps that succeeded so far; it lies
within the input, and the bytes that these steps covered are the input up to there.  A session
of the successful steps alone has the same records of them.
-/
theorem session_exact (bytes : List UInt8) (steps : List ReadStep) :
    (session steps (.start bytes)).length = steps.length ∧
      (∀ (i : Nat) (step : ReadStep), steps[i]? = some step → ∃ before record,
        (stops (.start bytes) (session steps (.start bytes)))[i]? = some before ∧
        (session steps (.start bytes))[i]? = some record ∧ step.Exact before record) ∧
      (∀ (i : Nat) (c : Cursor), (stops (.start bytes) (session steps (.start bytes)))[i]? = some c →
        c.After bytes (successes (steps.take i) ((session steps (.start bytes)).take i))) ∧
      session ((successes steps (session steps (.start bytes))).map Prod.fst) (.start bytes) =
        (successes steps (session steps (.start bytes))).map Prod.snd := by
  refine ⟨length_session steps _, ?_, ?_, session_successes steps _⟩
  · intro i step hstep
    obtain ⟨before, hbefore, hrecord⟩ := session_getElem? (c := .start bytes) hstep
    exact ⟨before, step.record before, hbefore, hrecord, step.record_exact before⟩
  · intro i c hstop
    exact (Cursor.after_start bytes).run hstop

/-- A negative number, a number for which bytes are missing, and the byte that it left. -/
theorem session_exact_interrupted :
    let bytes : List UInt8 := [0xFF, 0xFF, 0xFF, 0xFE, 0x80, 1, 2]
    let steps : List ReadStep := [.i4 "int", .u4 "u4", .u1 "u1", .skip 5 "code", .atEnd]
    let records := session steps (.start bytes)
    (stops (.start bytes) records)[3]? = some ⟨5, [1, 2], []⟩ ∧
      Cursor.After bytes (successes (steps.take 3) (records.take 3)) ⟨5, [1, 2], []⟩ ∧
      ∃ before record, (stops (.start bytes) records)[1]? = some before ∧
        records[1]? = some record ∧ (ReadStep.u4 "u4").Exact before record := by
  intro bytes steps records
  have hstop : (stops (.start bytes) records)[3]? = some ⟨5, [1, 2], []⟩ := by decide +kernel
  obtain ⟨-, hexact, hafter, -⟩ := session_exact bytes steps
  exact ⟨hstop, hafter 3 _ hstop, hexact 1 _ rfl⟩

end ClassFormat
