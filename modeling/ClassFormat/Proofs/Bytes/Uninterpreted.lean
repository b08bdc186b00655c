/-
Decoders and the bytes that they do not interpret.

A cursor remembers which stretches of the input were passed over.  Whatever the bytes in
these stretches are, a decoder does the same: the same value comes of it, or the same
fault, at the same place.

`Alike` says this of two runs on inputs of one length.  They start at the same place, and
where the first run reads, outside of what it passes over, the inputs are the same.  How
far a run gets is part of the condition, since nothing is known of the bytes behind that.
For two decoders in a row the first must therefore not be affected by what the second one
passes over; that holds because a run goes forward only, and passes over nothing that lies
behind it (`Leads`).
-/
import ClassFormat.Proofs.Bytes.Congruence
import ClassFormat.Proofs.Bytes.Format

namespace ClassFormat

/-- The position of the input lies in the stretch. -/
def Span.Covers (s : Span) (i : Nat) : Prop :=
  s.start ≤ i ∧ i < s.start + s.size

namespace Cursor

/-- The second cursor comes later, and what was passed over between them lies between them. -/
structure Leads (c c' : Cursor) : Prop where
  read : ∃ w, c.Over w c'
  passed : ∃ spans, c'.passed = spans ++ c.passed ∧
    ∀ s ∈ spans, c.offset ≤ s.start ∧ s.start + s.size ≤ c'.offset

/-- All that was passed over lies before the cursor. -/
def Settled (c : Cursor) : Prop :=
  ∀ s ∈ c.passed, s.start + s.size ≤ c.offset

/-- The same place in two inputs of one length. -/
structure Beside (c d : Cursor) : Prop where
  offset : d.offset = c.offset
  length : d.rest.length = c.rest.length
  passed : d.passed = c.passed
  settled : c.Settled

/--
From two cursors at the same place up to a third, the inputs are the same but for what
the third has passed over.
-/
def AgreeTo (c d e : Cursor) : Prop :=
  ∀ i, c.offset ≤ i → i < e.offset → (∀ s ∈ e.passed, ¬ s.Covers i) →
    c.rest[i - c.offset]? = d.rest[i - c.offset]?

namespace Leads

variable {c c' c'' d d' : Cursor}

theorem refl (c : Cursor) : c.Leads c :=
  ⟨⟨[], .refl c⟩, [], rfl, List.forall_mem_nil _⟩

theorem offset_le (h : c.Leads c') : c.offset ≤ c'.offset := by
  obtain ⟨w, hover⟩ := h.read
  rw [hover.offset]
  exact Nat.le_add_right ..

theorem trans (h : c.Leads c') (h' : c'.Leads c'') : c.Leads c'' := by
  obtain ⟨w, hover⟩ := h.read
  obtain ⟨v, hover'⟩ := h'.read
  obtain ⟨spans, hpassed, hwithin⟩ := h.passed
  obtain ⟨spans', hpassed', hwithin'⟩ := h'.passed
  have hle := h.offset_le
  have hle' := h'.offset_le
  refine ⟨⟨w ++ v, hover.trans hover'⟩, spans' ++ spans, ?_, ?_⟩
  · rw [hpassed', hpassed, List.append_assoc]
  · intro s hs
    rcases List.mem_append.mp hs with hs | hs
    · have := hwithin' s hs
      omega
    · have := hwithin s hs
      omega

/-- Behind both cursors the rests are the same. -/
theorem getElem?_rest (h : c.Leads c') {i : Nat} (hi : c'.offset ≤ i) :
    c.rest[i - c.offset]? = c'.rest[i - c'.offset]? := by
  obtain ⟨w, hover⟩ := h.read
  have hoffset := hover.offset
  rw [hover.rest, List.getElem?_append_right (by omega)]
  congr 1
  omega

/-- What is passed over later does not lie before the first of two cursors. -/
theorem not_covers_of_lt (h : c.Leads c') {i : Nat} (hi : i < c.offset)
    (hclear : ∀ s ∈ c.passed, ¬ s.Covers i) : ∀ s ∈ c'.passed, ¬ s.Covers i := by
  obtain ⟨spans, hpassed, hwithin⟩ := h.passed
  intro s hs hcovers
  rw [hpassed] at hs
  rcases List.mem_append.mp hs with hs | hs
  · have := hwithin s hs
    have := hcovers.1
    omega
  · exact hclear s hs hcovers

end Leads

namespace Beside

variable {c d : Cursor}

theorem refl (h : c.Settled) : c.Beside c := ⟨rfl, rfl, rfl, h⟩

theorem settled_right (h : c.Beside d) : d.Settled := by
  intro s hs
  rw [h.passed] at hs
  rw [h.offset]
  exact h.settled s hs

end Beside

namespace AgreeTo

variable {c c' d d' e : Cursor}

theorem refl (c e : Cursor) : c.AgreeTo c e := fun _ _ _ _ => rfl

/-- A first part of the way is not affected by what is passed over behind it. -/
theorem front (h : c.AgreeTo d e) (hlater : c'.Leads e) : c.AgreeTo d c' := by
  intro i hi hlt hclear
  have hle := hlater.offset_le
  exact h i hi (by omega) (hlater.not_covers_of_lt hlt hclear)

theorem back (h : c.AgreeTo d e) (hc : c.Leads c') (hd : d.Leads d') (hstart : d.offset = c.offset)
    (hend : d'.offset = c'.offset) : c'.AgreeTo d' e := by
  intro i hi hlt hclear
  have hle := hc.offset_le
  have hsame := h i (by omega) hlt hclear
  rw [hc.getElem?_rest hi, ← hstart, hd.getElem?_rest (by omega), hend] at hsame
  exact hsame

end AgreeTo

/-! ### Moving on -/

/-- The cursor a number of bytes further on, with more stretches passed over. -/
def moved (c : Cursor) (size : Nat) (spans : List Span) : Cursor :=
  ⟨c.offset + size, c.rest.drop size, spans ++ c.passed⟩

section Moved

variable {c d : Cursor} {size : Nat} {spans : List Span}

theorem leads_moved (h : size ≤ c.rest.length)
    (hspans : ∀ s ∈ spans, c.offset ≤ s.start ∧ s.start + s.size ≤ c.offset + size) :
    c.Leads (c.moved size spans) := by
  refine ⟨⟨c.rest.take size, (List.take_append_drop size c.rest).symm, ?_⟩, spans, rfl, hspans⟩
  rw [List.length_take, Nat.min_eq_left h]
  rfl

theorem Beside.moved (h : c.Beside d)
    (hspans : ∀ s ∈ spans, c.offset ≤ s.start ∧ s.start + s.size ≤ c.offset + size) :
    (c.moved size spans).Beside (d.moved size spans) := by
  refine ⟨congrArg (· + size) h.offset, ?_, congrArg (spans ++ ·) h.passed, ?_⟩
  · show (d.rest.drop size).length = (c.rest.drop size).length
    rw [List.length_drop, List.length_drop, h.length]
  · intro s hs
    show s.start + s.size ≤ c.offset + size
    rcases List.mem_append.mp hs with hs | hs
    · exact (hspans s hs).2
    · exact Nat.le_add_right_of_le (h.settled s hs)

end Moved

end Cursor

namespace Decoder

variable {α β : Type} {R : α → α → Prop} {S : β → β → Prop} {p q : Decoder α}
  {f g : α → Decoder β} {c c' d d' : Cursor} {a b : α} {e : Fault}

/-! ### Where a run ends -/

/-- The cursor where a run of the decoder ends, with a value or with a fault. -/
def cursorAfter (p : Decoder α) (c : Cursor) : Cursor :=
  match p c with
  | .ok _ c' => c'
  | .error _ c' => c'

theorem cursorAfter_of_ok (h : p c = .ok a c') : p.cursorAfter c = c' := by
  unfold cursorAfter
  rw [h]

theorem cursorAfter_of_error (h : p c = .error e c') : p.cursorAfter c = c' := by
  unfold cursorAfter
  rw [h]

theorem cursorAfter_bind_of_ok (h : p c = .ok a c') :
    (p >>= f).cursorAfter c = (f a).cursorAfter c' := by
  unfold cursorAfter
  rw [bind_of_ok h]

/-- A run of two decoders leads on if each of them does. -/
theorem leads_bind (hp : c.Leads (p.cursorAfter c))
    (hf : ∀ a c', p c = .ok a c' → c'.Leads ((f a).cursorAfter c')) :
    c.Leads ((p >>= f).cursorAfter c) := by
  cases h : p c with
  | ok a c' =>
      rw [cursorAfter_of_ok h] at hp
      rw [cursorAfter_bind_of_ok h]
      exact hp.trans (hf a c' h)
  | error e c' =>
      rw [cursorAfter_of_error h] at hp
      rwa [cursorAfter_of_error (bind_of_error h)]

/-! ### Runs that are alike -/

/-- The results are values in the relation, or the same fault, at the same place. -/
inductive Matches (R : α → α → Prop) :
    EStateM.Result Fault Cursor α → EStateM.Result Fault Cursor α → Prop where
  | ok {a b : α} {c d : Cursor} (h : R a b) (hplace : c.Beside d) : Matches R (.ok a c) (.ok b d)
  | error (e : Fault) {c d : Cursor} (hplace : c.Beside d) : Matches R (.error e c) (.error e d)

/--
The decoders do alike on inputs of one length that are the same but for what the first
run passes over.
-/
structure Alike (R : α → α → Prop) (p q : Decoder α) : Prop where
  leads : ∀ {c : Cursor}, c.Settled → c.Leads (p.cursorAfter c)
  leads_right : ∀ {d : Cursor}, d.Settled → d.Leads (q.cursorAfter d)
  runs : ∀ {c d : Cursor}, c.Beside d → c.AgreeTo d (p.cursorAfter c) → Matches R (p c) (q d)

theorem Matches.of_ok {r : EStateM.Result Fault Cursor α} (h : Matches R (p c) r)
    (hp : p c = .ok a c') : ∃ b d', r = .ok b d' ∧ R a b ∧ c'.Beside d' := by
  rw [hp] at h
  cases h with
  | ok hab hplace => exact ⟨_, _, rfl, hab, hplace⟩

theorem Matches.of_error {r : EStateM.Result Fault Cursor α} (h : Matches R (p c) r)
    (hp : p c = .error e c') : ∃ d', r = .error e d' ∧ c'.Beside d' := by
  rw [hp] at h
  cases h with
  | error e hplace => exact ⟨_, rfl, hplace⟩

theorem Matches.of_ok_right {r : EStateM.Result Fault Cursor α} (h : Matches R r (q d))
    (hq : q d = .ok b d') : ∃ a c', R a b ∧ r = .ok a c' ∧ c'.Beside d' := by
  rw [hq] at h
  cases h with
  | ok hab hplace => exact ⟨_, _, hab, rfl, hplace⟩

namespace Alike

/-- A decoder is alike to the other on the very same input. -/
theorem self (hp : Alike R p q) (hc : c.Settled) : Matches R (p c) (q c) :=
  hp.runs (.refl hc) (.refl c _)

theorem leads_after (hp : Alike R p q) (hf : ∀ a b, R a b → Alike S (f a) (g b))
    (hc : c.Settled) (h : p c = .ok a c') : c'.Leads ((f a).cursorAfter c') := by
  obtain ⟨b, d', -, hab, hplace⟩ := (hp.self hc).of_ok h
  exact (hf a b hab).leads hplace.settled

theorem leads_right_after (hp : Alike R p q) (hf : ∀ a b, R a b → Alike S (f a) (g b))
    (hd : d.Settled) (h : q d = .ok b d') : d'.Leads ((g b).cursorAfter d') := by
  obtain ⟨a, c', hab, -, hplace⟩ := (hp.self hd).of_ok_right h
  exact (hf a b hab).leads_right hplace.settled_right

theorem bind (hp : Alike R p q) (hf : ∀ a b, R a b → Alike S (f a) (g b)) :
    Alike S (p >>= f) (q >>= g) := by
  refine ⟨?_, ?_, ?_⟩
  · intro c hc
    exact leads_bind (hp.leads hc) fun a c' h => leads_after hp hf hc h
  · intro d hd
    exact leads_bind (hp.leads_right hd) fun b d' h => leads_right_after hp hf hd h
  · intro c d hplace hagree
    have hleads := hp.leads hplace.settled
    cases h : p c with
    | ok a c' =>
        rw [cursorAfter_bind_of_ok h] at hagree
        -- What the second decoder passes over does not concern the first.
        have hfront := hagree.front (leads_after hp hf hplace.settled h)
        rw [← cursorAfter_of_ok h] at hfront
        obtain ⟨b, d', hq, hab, hplace'⟩ := (hp.runs hplace hfront).of_ok h
        have hleads' := hp.leads_right hplace.settled_right
        rw [cursorAfter_of_ok h] at hleads
        rw [cursorAfter_of_ok hq] at hleads'
        have hback := hagree.back hleads hleads' hplace.offset hplace'.offset
        rw [bind_of_ok h, bind_of_ok hq]
        exact (hf a b hab).runs hplace' hback
    | error e c' =>
        rw [cursorAfter_of_error (bind_of_error h), ← cursorAfter_of_error h] at hagree
        obtain ⟨d', hq, hplace'⟩ := (hp.runs hplace hagree).of_error h
        rw [bind_of_error h, bind_of_error hq]
        exact .error e hplace'

/-- Decoders that do not move the cursor. -/
theorem still (hp : ∀ c, p.cursorAfter c = c) (hq : ∀ d, q.cursorAfter d = d)
    (h : ∀ {c d : Cursor}, c.Beside d → Matches R (p c) (q d)) : Alike R p q := by
  refine ⟨?_, ?_, ?_⟩
  · intro c _
    rw [hp]
    exact .refl c
  · intro d _
    rw [hq]
    exact .refl d
  · intro c d hplace _
    exact h hplace

end Alike

/-! ### Reads -/

theorem take_of_le {size : Nat} (item : String) (h : size ≤ c.rest.length) :
    Decoder.take size item c = .ok (c.rest.take size) (c.moved size []) := by
  have hlen : (c.rest.take size).length = size := by
    rw [List.length_take]
    omega
  simp only [Decoder.take, if_pos hlen]
  rfl

theorem take_of_lt {size : Nat} (item : String) (h : c.rest.length < size) :
    Decoder.take size item c =
      .error (.located (.endOfInput size item c.rest.length) c.offset) c := by
  have hlen : (c.rest.take size).length = c.rest.length := by
    rw [List.length_take]
    omega
  have hne : ¬ c.rest.length = size := by omega
  simp only [Decoder.take, hlen, if_neg hne]

theorem pass_of_le {size : Nat} (item : String) (h : size ≤ c.rest.length) :
    Decoder.pass size item c =
      .ok (c.rest.take size) (c.moved size [⟨c.offset, size⟩]) := by
  have htake := take_of_le item h
  show (Decoder.take size item >>= fun bytes => modify _ >>= fun _ => pure bytes) c = _
  rw [bind_of_ok htake]
  rfl

theorem pass_of_lt {size : Nat} (item : String) (h : c.rest.length < size) :
    Decoder.pass size item c =
      .error (.located (.endOfInput size item c.rest.length) c.offset) c := by
  show (Decoder.take size item >>= fun bytes => modify _ >>= fun _ => pure bytes) c = _
  exact bind_of_error (take_of_lt item h)

namespace Alike

/--
A read takes a number of bytes or finds that there are too few; it may note that they were
passed over.
-/
theorem read {R : List UInt8 → List UInt8 → Prop} {p : Decoder (List UInt8)} {size : Nat}
    {item : String} (spans : Nat → List Span)
    (hspans : ∀ n, ∀ s ∈ spans n, n ≤ s.start ∧ s.start + s.size ≤ n + size)
    (hle : ∀ c : Cursor, size ≤ c.rest.length →
      p c = .ok (c.rest.take size) (c.moved size (spans c.offset)))
    (hlt : ∀ c : Cursor, c.rest.length < size →
      p c = .error (.located (.endOfInput size item c.rest.length) c.offset) c)
    (hR : ∀ c d : Cursor, c.Beside d → c.AgreeTo d (c.moved size (spans c.offset)) →
      R (c.rest.take size) (d.rest.take size)) : Alike R p p := by
  have hleads : ∀ c : Cursor, c.Leads (p.cursorAfter c) := by
    intro c
    rcases Nat.lt_or_ge c.rest.length size with h | h
    · rw [cursorAfter_of_error (hlt c h)]
      exact .refl c
    · rw [cursorAfter_of_ok (hle c h)]
      exact c.leads_moved h (hspans c.offset)
  refine ⟨fun _ => hleads _, fun _ => hleads _, ?_⟩
  intro c d hplace hagree
  rcases Nat.lt_or_ge c.rest.length size with h | h
  · rw [hlt c h, hlt d (by rw [hplace.length]; exact h), hplace.length, hplace.offset]
    exact .error _ hplace
  · rw [cursorAfter_of_ok (hle c h)] at hagree
    rw [hle c h, hle d (by rw [hplace.length]; exact h), hplace.offset]
    exact .ok (hR c d hplace hagree) (hplace.moved (hspans c.offset))

theorem take (size : Nat) (item : String) :
    Alike Eq (Decoder.take size item) (Decoder.take size item) := by
  refine read (fun _ => []) (fun _ => List.forall_mem_nil _) (fun c => take_of_le item)
    (fun c => take_of_lt item) fun c d hplace hagree => ?_
  refine List.ext_getElem? fun i => ?_
  rw [List.getElem?_take, List.getElem?_take]
  by_cases hi : i < size
  · -- nothing that was passed over before reaches up to here
    have hclear : ∀ s ∈ c.passed, ¬ s.Covers (c.offset + i) := by
      intro s hs hcovers
      have := hplace.settled s hs
      have := hcovers.2
      omega
    have hsame := hagree (c.offset + i) (by omega) (Nat.add_lt_add_left hi _) hclear
    rw [Nat.add_sub_cancel_left] at hsame
    rw [if_pos hi, if_pos hi, hsame]
  · rw [if_neg hi, if_neg hi]

/-- Zeros in the place of bytes. -/
def blank (bytes : List UInt8) : List UInt8 :=
  .replicate bytes.length 0

theorem pass (size : Nat) (item : String) :
    Alike (fun x y => blank x = blank y) (Decoder.pass size item) (Decoder.pass size item) := by
  refine read (fun n => [⟨n, size⟩]) ?_ (fun c => pass_of_le item)
    (fun c => pass_of_lt item) fun c d hplace _ => ?_
  · intro n s hs
    obtain rfl := List.mem_singleton.mp hs
    exact ⟨Nat.le_refl n, Nat.le_refl (n + size)⟩
  · unfold blank
    rw [List.length_take, List.length_take, hplace.length]

end Alike

/-- What decoders do whatever they pass over, as a relation that all of them respect. -/
def indifference : Congruence where
  Rel := Alike
  Left := Eq
  view := Alike.blank
  pure h := Alike.still (fun _ => rfl) (fun _ => rfl) fun hplace => .ok h hplace
  fail e := Alike.still (fun _ => rfl) (fun _ => rfl) fun hplace => .error e hplace
  bind := Alike.bind
  offset := Alike.still (fun _ => rfl) (fun _ => rfl) fun hplace => .ok hplace.offset.symm hplace
  remaining :=
    Alike.still (fun _ => rfl) (fun _ => rfl) fun hplace => .ok hplace.length.symm hplace
  take := Alike.take
  pass := Alike.pass
  left_le := Nat.le_of_eq
  left_pred := Nat.succ.inj
  cut _ h hne := absurd h hne

end Decoder

end ClassFormat
