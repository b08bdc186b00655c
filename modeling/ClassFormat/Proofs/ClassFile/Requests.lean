/-
Attributes that are read one by one, on behalf of a class and its members.

A request names an owner, an attribute and a length, and one of several streams.  `Observed`
says all there is to know about a single request: what it answers, how far it moves its stream,
and which owner it marks.  It holds of every request whose class has a linked pool, and no
request changes the pool, so it holds of each request of a run.

A class is compared with itself at two times in two ways.  `unmarked` forgets the marks of
deprecation and keeps all the rest, and nothing of that ever changes.  The marks are looked at
owner by owner: a request adds one to its own owner or none at all, and over a run they add up.
-/
import ClassFormat.ClassFile.Reading
import ClassFormat.Proofs.Attribute.Owners
import ClassFormat.Proofs.ClassFile.Resolved
import Mathlib.Logic.Function.Basic

namespace ClassFormat

open Decoder

/-! ### Kinds of payloads -/

namespace Payload

/-- The kind of the payload if it is an interpreted one. -/
def kind? : Payload → Option PayloadKind
  | constantValue _ => some .constantValue
  | signature _ => some .signature
  | sourceFile _ => some .sourceFile
  | exceptions _ => some .exceptions
  | innerClasses _ => some .innerClasses
  | methodParameters _ => some .methodParameters
  | code _ => some .code
  | annotations _ => some .annotations
  | uninterpreted => none

theorem kind?_eq_none_iff {p : Payload} : p.kind? = none ↔ p = .uninterpreted := by
  cases p <;> simp [kind?]

theorem kind?_view (pool : ConstantPool) (settle : Annotation → Annotation) (x : PayloadLayout) :
    (x.view pool settle).kind? = x.kind? := by
  cases x <;> rfl

end Payload

/-- The table of an owner has the names that are interpreted for it, and no others. -/
theorem OwnerKind.lookup_table_eq_none_iff (pool : ConstantPool) (owner : OwnerKind)
    (name : Text) :
    (owner.table pool).lookup name = none ↔ owner.interpreted.lookup name = none := by
  rw [table_eq, Attribute.lookup_map_snd, Option.map_eq_none_iff]

/-! ### Marks -/

/-- The attributes without the mark. -/
def AttributeSet.unmarked (s : AttributeSet) : AttributeSet :=
  { s with deprecated := false }

/-- The attributes, marked if they were before or if the condition holds. -/
def AttributeSet.markedIf (s : AttributeSet) (condition : Bool) : AttributeSet :=
  { s with deprecated := s.deprecated || condition }

/-- The member without its mark. -/
def Member.unmarked (m : Member) : Member :=
  { m with attributes := m.attributes.unmarked }

namespace AttributeSet

theorem markedIf_false (s : AttributeSet) : s.markedIf false = s := by
  unfold markedIf
  rw [Bool.or_false]

theorem markedIf_markedIf (s : AttributeSet) (b b' : Bool) :
    (s.markedIf b).markedIf b' = s.markedIf (b || b') := by
  unfold markedIf
  rw [Bool.or_assoc]

theorem markedIf_true (s : AttributeSet) : s.markedIf true = s.markDeprecated := by
  unfold markedIf markDeprecated
  rw [Bool.or_true]

end AttributeSet

theorem map_modify_of_eq {α β : Type} (f : α → β) (g : α → α) (h : ∀ a, f (g a) = f a)
    (i : Nat) (xs : List α) : (xs.modify i g).map f = xs.map f := by
  refine List.ext_getElem? fun j => ?_
  rw [List.getElem?_map, List.getElem?_map, List.getElem?_modify]
  cases xs[j]? with
  | none => rfl
  | some a =>
      by_cases hij : i = j
      · simp [hij, h]
      · simp [hij]

namespace ClassFile

/-- The class without any mark, be it its own or that of a member. -/
def unmarked (c : ClassFile) : ClassFile :=
  { c with
    fields := c.fields.map fun f => ⟨f.toMember.unmarked⟩
    methods := c.methods.map fun m => ⟨m.toMember.unmarked⟩
    attributes := c.attributes.unmarked }

theorem getElem?_modify_map {α : Type} (view : α → AttributeSet) (g : α → α)
    (hg : ∀ a, view (g a) = (view a).markDeprecated) (i j : Nat) (xs : List α) :
    (xs.modify i g)[j]?.map view = (xs[j]?.map view).map fun s => s.markedIf (decide (i = j)) := by
  rw [List.getElem?_modify]
  cases xs[j]? with
  | none => rfl
  | some a =>
      by_cases hij : i = j
      · simp [hij, hg, AttributeSet.markedIf_true]
      · simp [hij, AttributeSet.markedIf_false]

theorem map_markedIf_false (s : Option AttributeSet) : s.map (fun a => a.markedIf false) = s := by
  simp [AttributeSet.markedIf_false]

theorem unmarked_markDeprecated (c : ClassFile) (owner : Owner) :
    (c.markDeprecated owner).unmarked = c.unmarked := by
  cases owner with
  | self => rfl
  | field i =>
      have hfields := map_modify_of_eq (fun f : Field => Field.mk f.toMember.unmarked)
        (fun f => ⟨f.toMember.markDeprecated⟩) (fun _ => rfl) i c.fields
      exact congrArg (fun fields => { c.unmarked with fields := fields }) hfields
  | method i =>
      have hmethods := map_modify_of_eq (fun m : Method => Method.mk m.toMember.unmarked)
        (fun m => ⟨m.toMember.markDeprecated⟩) (fun _ => rfl) i c.methods
      exact congrArg (fun methods => { c.unmarked with methods := methods }) hmethods

/-- A mark is added to the owner in question, and to no other one. -/
theorem attributesOf_markDeprecated (c : ClassFile) (owner other : Owner) :
    (c.markDeprecated owner).attributesOf other =
      (c.attributesOf other).map fun s => s.markedIf (decide (owner = other)) := by
  cases owner with
  | self =>
      cases other with
      | self => simp [attributesOf, markDeprecated, AttributeSet.markedIf_true]
      | field j => exact (map_markedIf_false _).symm
      | method j => exact (map_markedIf_false _).symm
  | field i =>
      cases other with
      | self => exact (map_markedIf_false _).symm
      | field j =>
          simp only [Owner.field.injEq]
          exact getElem?_modify_map (fun f => f.attributes) (fun f => ⟨f.toMember.markDeprecated⟩)
            (fun _ => rfl) i j c.fields
      | method j => exact (map_markedIf_false _).symm
  | method i =>
      cases other with
      | self => exact (map_markedIf_false _).symm
      | field j => exact (map_markedIf_false _).symm
      | method j =>
          simp only [Owner.method.injEq]
          exact getElem?_modify_map (fun m => m.attributes) (fun m => ⟨m.toMember.markDeprecated⟩)
            (fun _ => rfl) i j c.methods

end ClassFile

/-! ### Requests -/

/-- An attribute that is asked for: for whom, under which name, how long, and from which stream. -/
structure AttributeRequest where
  owner : Owner
  name : Text
  length : Nat
  stream : Nat

/-- A class, and the streams that attributes are read from. -/
structure ReadingState where
  subject : ClassFile
  streams : Nat → Cursor

/-- What a request answers: an attribute, the absence of one, or a fault. -/
abbrev AttributeAnswer := Except Fault (Option (Attribute Payload))

namespace AttributeRequest

/-- Serves a request. -/
def run (r : AttributeRequest) (s : ReadingState) : AttributeAnswer × ReadingState :=
  let reading := s.subject.readAttribute r.owner r.name r.length (s.streams r.stream)
  (reading.outcome, ⟨reading.result, Function.update s.streams r.stream reading.cursor⟩)

/-- Serves requests one after the other, whether they fail or not. -/
def runAll : List AttributeRequest → ReadingState → List AttributeAnswer × ReadingState
  | [], s => ([], s)
  | r :: rest, s =>
    let (answer, s') := r.run s
    let (answers, s'') := runAll rest s'
    (answer :: answers, s'')

/-- The request is for a well-formed mark of deprecation. -/
def IsMark (r : AttributeRequest) : Prop :=
  r.name = markerName ∧ r.length = 0

instance (r : AttributeRequest) : Decidable r.IsMark :=
  inferInstanceAs (Decidable (r.name = markerName ∧ r.length = 0))

/-- The request marks the owner. -/
def marks (owner : Owner) (r : AttributeRequest) : Bool :=
  decide (r.owner = owner) && decide r.IsMark

/--
The attribute that was asked for, read off the front of a stream.  It is of the kind that
belongs to the name, and its payload is what the bytes say that were taken from the stream.
-/
structure Yields (r : AttributeRequest) (pool : ConstantPool) (input : Cursor)
    (a : Attribute Payload) (after : Cursor) : Prop where
  name : a.name = r.name
  length : a.length = r.length
  offset : after.offset = input.offset + r.length
  rest : after.rest = input.rest.drop r.length
  kind : a.payload.kind? = r.owner.kind.interpreted.lookup r.name
  unknown : a.payload = .uninterpreted ↔ (r.owner.kind.table pool).lookup r.name = none
  written : ∃ x : PayloadLayout, x.Fits pool SignatureForm.Accepts r.owner.kind r.name ∧
    input.rest = x.encode ++ after.rest ∧ a.payload = x.view pool Annotation.merge

/-- What a request answers in a state, and what it leaves behind. -/
structure Observed (r : AttributeRequest) (s : ReadingState) (answer : AttributeAnswer)
    (s' : ReadingState) : Prop where
  /-- A mark gives no attribute, and nothing is read for it. -/
  mark : r.IsMark → answer = .ok none ∧ s'.streams = s.streams
  /-- A mark that is not empty is refused where it stands. -/
  notEmpty : r.name = markerName → r.length ≠ 0 →
    answer = .error (.located (.markerNotEmpty r.length) (s.streams r.stream).offset) ∧
      s'.streams = s.streams
  /-- Any other attribute must not be longer than what is left. -/
  truncated : r.name ≠ markerName → (s.streams r.stream).remaining < r.length →
    answer = .error (.located
        (.attributeTruncated r.name r.length (s.streams r.stream).remaining)
        (s.streams r.stream).offset) ∧
      s'.streams = s.streams
  /-- If it is read, it is what was asked for, and the stream has moved by its length. -/
  read : r.name ≠ markerName → ∀ found, answer = .ok found → ∃ a, found = some a ∧
    r.Yields s.subject.pool (s.streams r.stream) a (s'.streams r.stream)
  /-- It is read whenever a payload of the length stands there that fits the name. -/
  complete : r.name ≠ markerName → ∀ (x : PayloadLayout) (t : List UInt8),
    x.Fits s.subject.pool SignatureForm.Accepts r.owner.kind r.name → x.encode.length = r.length →
    (s.streams r.stream).rest = x.encode ++ t → ∃ a, answer = .ok (some a)
  /-- No other stream is touched. -/
  others : ∀ k, k ≠ r.stream → s'.streams k = s.streams k
  /-- Nothing of the class changes but marks. -/
  kept : s'.subject.unmarked = s.subject.unmarked
  /-- A mark is added to the owner that it was requested for, and in no other case. -/
  marked : ∀ owner, s'.subject.attributesOf owner =
    (s.subject.attributesOf owner).map fun attributes => attributes.markedIf (r.marks owner)

variable {r : AttributeRequest} {s : ReadingState}

/-! ### One request -/

theorem decodeMarked_notEmpty {owner : OwnerKind} {pool : ConstantPool} {n : Nat} (h : n ≠ 0)
    (c : Cursor) : owner.decodeMarked pool markerName n c =
      .error (.located (.markerNotEmpty n) c.offset) c := by
  unfold OwnerKind.decodeMarked
  rw [if_pos (show markerName = ("Deprecated" : Text) from rfl), if_neg h]
  rfl

theorem framed_of_lt {P : Type} {p : Decoder P} {name : Text} {n : Nat} {c : Cursor}
    (h : c.remaining < n) : Attribute.framed name n p c =
      .error (.located (.attributeTruncated name n c.remaining) c.offset) c := by
  show (if c.remaining < n then failAt c.offset (.attributeTruncated name n c.remaining)
      else _ : Decoder (Attribute P)) c = _
  rw [if_pos h]
  rfl

/-- Whether or not the owner knows the name, an attribute must not be longer than what is left. -/
theorem decodeMarked_truncated {owner : OwnerKind} {pool : ConstantPool} {name : Text} {n : Nat}
    {c : Cursor} (hname : name ≠ markerName) (h : c.remaining < n) :
    owner.decodeMarked pool name n c =
      .error (.located (.attributeTruncated name n c.remaining) c.offset) c := by
  have hdecode : owner.decodeAttribute pool name n c =
      .error (.located (.attributeTruncated name n c.remaining) c.offset) c := by
    unfold OwnerKind.decodeAttribute Attribute.decodeBy
    cases (owner.table pool).lookup name with
    | some payload => exact framed_of_lt h
    | none => exact framed_of_lt h
  unfold OwnerKind.decodeMarked
  rw [if_neg (show name ≠ ("Deprecated" : Text) from hname), ← bind_pure_comp]
  exact bind_of_error hdecode

/-- What is read is what was asked for, and only an empty mark is read as no attribute. -/
theorem decodeMarked_ok {pool : ConstantPool} (hp : pool.Linked) {c c' : Cursor}
    {found : Option (Attribute Payload)}
    (h : r.owner.kind.decodeMarked pool r.name r.length c = .ok found c') :
    (found = none ∧ r.IsMark) ∨
      ∃ a, found = some a ∧ r.name ≠ markerName ∧ r.Yields pool c a c' := by
  obtain ⟨w, ⟨x, ⟨hfits, hlength⟩, rfl, hfound⟩, hover⟩ :=
    (r.owner.kind.reads_decodeMarked hp r.name r.length).explains h
  dsimp only at hfound
  by_cases hname : r.name = markerName
  · rw [if_pos hname] at hfound
    exact .inl ⟨hfound.symm, hname, hlength.symm.trans (hfits.marker hname)⟩
  · rw [if_neg hname] at hfound
    have hkind : (x.view pool Annotation.merge).kind? = r.owner.kind.interpreted.lookup r.name :=
      (Payload.kind?_view pool _ x).trans hfits.kind
    refine .inr ⟨_, hfound.symm, hname, rfl, hlength, ?offset, ?rest, hkind, ?unknown,
      x, hfits, hover.rest, rfl⟩
    case offset => rw [hover.offset, hlength]
    case rest => rw [hover.rest, ← hlength, List.drop_left]
    case unknown =>
      rw [OwnerKind.lookup_table_eq_none_iff, ← hkind]
      exact Payload.kind?_eq_none_iff.symm

/-- The state after an answer that leaves the class alone. -/
def movedTo (r : AttributeRequest) (s : ReadingState) (after : Cursor) : ReadingState :=
  ⟨s.subject, Function.update s.streams r.stream after⟩

theorem movedTo_self (r : AttributeRequest) (s : ReadingState) :
    (r.movedTo s (s.streams r.stream)).streams = s.streams :=
  Function.update_eq_self ..

theorem attributesOf_movedTo (h : ¬ r.IsMark) (after : Cursor) (owner : Owner) :
    (r.movedTo s after).subject.attributesOf owner =
      (s.subject.attributesOf owner).map fun attributes => attributes.markedIf (r.marks owner) := by
  have hmarks : r.marks owner = false := by simp [marks, h]
  rw [hmarks, ClassFile.map_markedIf_false]
  rfl

theorem observed_mark (h : r.IsMark) :
    r.Observed s (.ok none) ⟨s.subject.markDeprecated r.owner, s.streams⟩ where
  mark _ := ⟨rfl, rfl⟩
  notEmpty _ hlength := absurd h.2 hlength
  truncated hname := absurd h.1 hname
  read hname := absurd h.1 hname
  complete hname := absurd h.1 hname
  others _ _ := rfl
  kept := s.subject.unmarked_markDeprecated r.owner
  marked owner := by
    rw [ClassFile.attributesOf_markDeprecated]
    simp [marks, h]

theorem observed_some {a : Attribute Payload} {after : Cursor} (hname : r.name ≠ markerName)
    (hdecode : r.owner.kind.decodeMarked s.subject.pool r.name r.length (s.streams r.stream) =
      .ok (some a) after)
    (h : r.Yields s.subject.pool (s.streams r.stream) a after) :
    r.Observed s (.ok (some a)) (r.movedTo s after) where
  mark hmark := absurd hmark.1 hname
  notEmpty hmark := absurd hmark hname
  truncated _ hlength := by
    rw [decodeMarked_truncated hname hlength] at hdecode
    cases hdecode
  read _ found hfound := by
    refine ⟨a, (Except.ok.inj hfound).symm, ?_⟩
    rwa [show (r.movedTo s after).streams r.stream = after from Function.update_self ..]
  complete _ _ _ _ _ _ := ⟨a, rfl⟩
  others k hk := Function.update_of_ne hk ..
  kept := rfl
  marked := attributesOf_movedTo (fun hmark => hname hmark.1) after

theorem observed_error (hp : s.subject.pool.Linked) {e : Fault} {after : Cursor}
    (h : r.owner.kind.decodeMarked s.subject.pool r.name r.length (s.streams r.stream) =
      .error e after) : r.Observed s (.error e) (r.movedTo s after) := by
  have hmark : ¬ r.IsMark := by
    intro hmark
    rw [hmark.1, hmark.2] at h
    cases h
  refine ⟨fun h => absurd h hmark, ?notEmpty, ?truncated, ?read, ?complete,
    fun k hk => Function.update_of_ne hk .., rfl, attributesOf_movedTo hmark after⟩
  case notEmpty =>
    intro hname hlength
    rw [hname, decodeMarked_notEmpty hlength] at h
    cases h
    exact ⟨rfl, r.movedTo_self s⟩
  case truncated =>
    intro hname hlength
    rw [decodeMarked_truncated hname hlength] at h
    cases h
    exact ⟨rfl, r.movedTo_self s⟩
  case read =>
    intro _ found hfound
    cases hfound
  case complete =>
    intro _ x t hfits hlength hrest
    obtain ⟨c', hread, -⟩ := (r.owner.kind.reads_decodeMarked hp r.name r.length).accepts
      ⟨x, ⟨hfits, hlength⟩, rfl, rfl⟩ hrest
    rw [h] at hread
    cases hread

/-- A single request is answered as it should be, and leaves behind what it should. -/
theorem run_observed (hp : s.subject.pool.Linked) (r : AttributeRequest) :
    r.Observed s (r.run s).1 (r.run s).2 := by
  unfold run ClassFile.readAttribute
  dsimp only
  cases hdecode : r.owner.kind.decodeMarked s.subject.pool r.name r.length (s.streams r.stream) with
  | error e after => exact observed_error hp hdecode
  | ok found after =>
      rcases decodeMarked_ok hp hdecode with ⟨rfl, hmark⟩ | ⟨a, rfl, hname, hyields⟩
      · rw [hmark.1, hmark.2] at hdecode
        cases hdecode
        dsimp only
        rw [Function.update_eq_self]
        exact observed_mark hmark
      · exact observed_some hname hdecode hyields

/-! ### Runs -/

/-- The requests are answered one after the other, each in the state that the last one left. -/
inductive Served : ReadingState → List AttributeRequest → List AttributeAnswer → ReadingState →
    Prop where
  | done (s : ReadingState) : Served s [] [] s
  | next {s s' s'' : ReadingState} {r : AttributeRequest} {answer : AttributeAnswer}
      {requests : List AttributeRequest} {answers : List AttributeAnswer}
      (h : r.Observed s answer s') (rest : Served s' requests answers s'') :
      Served s (r :: requests) (answer :: answers) s''

variable {s' : ReadingState} {requests : List AttributeRequest} {answers : List AttributeAnswer}

theorem Observed.pool_eq {answer : AttributeAnswer} (h : r.Observed s answer s') :
    s'.subject.pool = s.subject.pool := by
  have hkept := congrArg ClassFile.pool h.kept
  exact hkept

theorem runAll_served (hp : s.subject.pool.Linked) (requests : List AttributeRequest) :
    Served s requests (runAll requests s).1 (runAll requests s).2 := by
  induction requests generalizing s with
  | nil => exact .done s
  | cons r requests ih =>
      have hrun : r.Observed s (r.run s).1 (r.run s).2 := run_observed hp r
      refine .next hrun (ih ?_)
      rw [hrun.pool_eq]
      exact hp

/-- Over a run, nothing of the class changes but marks. -/
theorem Served.unmarked_eq (h : Served s requests answers s') :
    s'.subject.unmarked = s.subject.unmarked := by
  induction h with
  | done => rfl
  | next hrun _ ih => exact ih.trans hrun.kept

/-- Over a run, an owner is marked if one of the requests marks it. -/
theorem Served.attributesOf_eq (h : Served s requests answers s') (owner : Owner) :
    s'.subject.attributesOf owner = (s.subject.attributesOf owner).map fun attributes =>
      attributes.markedIf (requests.any (marks owner)) := by
  induction h with
  | done s => exact (ClassFile.map_markedIf_false _).symm
  | next hrun _ ih =>
      rw [ih, hrun.marked, Option.map_map]
      congr 1
      funext attributes
      exact attributes.markedIf_markedIf ..

end AttributeRequest

namespace ClassFile

open AttributeRequest

end ClassFile

end ClassFormat
