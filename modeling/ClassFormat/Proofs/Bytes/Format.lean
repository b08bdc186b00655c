/-
What a decoder reads.

A format says which byte strings stand for which values.  A decoder *reads* a
format if it takes a string of the format off the front of any input, gives the
value and stops right behind the string, and if it succeeds on nothing else.  So
one statement about a decoder says both that it undoes the encoder and that it
accepts nothing but what the encoder writes.

The formats that matter here come from layouts: a condition, an encoder and the
value that a layout shows.  `written` is the format of such a triple.  Decoders
that run one after the other read the layouts side by side (`seq`), and
`rebuild` turns the pairs that this gives into the structure they stand for.

Nothing here mentions the stretches that a cursor remembers as not interpreted:
they never have a say in what is read.
-/
import ClassFormat.Proofs.Bytes.Encoder

namespace ClassFormat

/-- Which byte strings stand for which values. -/
abbrev Format (α : Type) := List UInt8 → α → Prop

/-- The strings that are written for what is well formed, each standing for what it shows. -/
def written {X α : Type} (ok : X → Prop) (encode : X → List UInt8) (view : X → α) : Format α :=
  fun w a => ∃ x, ok x ∧ encode x = w ∧ view x = a

/-- Moving over the given bytes leads from one cursor to another. -/
structure Cursor.Over (c : Cursor) (w : List UInt8) (c' : Cursor) : Prop where
  rest : c.rest = w ++ c'.rest
  offset : c'.offset = c.offset + w.length

namespace Cursor.Over

theorem refl (c : Cursor) : c.Over [] c := ⟨rfl, rfl⟩

theorem trans {c c' c'' : Cursor} {w v : List UInt8} (h : c.Over w c') (h' : c'.Over v c'') :
    c.Over (w ++ v) c'' := by
  refine ⟨?_, ?_⟩
  · rw [h.rest, h'.rest, List.append_assoc]
  · rw [h'.offset, h.offset, List.length_append, Nat.add_assoc]

/-- What is left behind a string is what followed it. -/
theorem rest_eq {c c' : Cursor} {w t : List UInt8} (h : c.Over w c') (ht : c.rest = w ++ t) :
    c'.rest = t :=
  (List.append_cancel_left (ht.symm.trans h.rest)).symm

theorem remaining_eq {c c' : Cursor} {w : List UInt8} (h : c.Over w c') :
    c.remaining = w.length + c'.remaining := by
  unfold Cursor.remaining
  rw [h.rest, List.length_append]

end Cursor.Over

/-- The decoder succeeds on the strings of the format, stops behind them, and on nothing else. -/
structure Decoder.Reads {α : Type} (p : Decoder α) (F : Format α) : Prop where
  /-- A string of the format is taken off the input, whatever follows it. -/
  accepts : ∀ {c : Cursor} {w t : List UInt8} {a : α}, F w a → c.rest = w ++ t →
    ∃ c', p c = .ok a c' ∧ c.Over w c'
  /-- Success comes from a string of the format. -/
  explains : ∀ {c c' : Cursor} {a : α}, p c = .ok a c' → ∃ w, F w a ∧ c.Over w c'

namespace Decoder

variable {α β X Y : Type} {p : Decoder α}

/-! ### Running one decoder after another -/

theorem pure_ok {a b : α} {c c' : Cursor} :
    (pure a : Decoder α) c = .ok b c' ↔ a = b ∧ c = c' := by
  show EStateM.Result.ok a c = .ok b c' ↔ _
  rw [EStateM.Result.ok.injEq]

theorem bind_ok {f : α → Decoder β} {c c' : Cursor} {b : β} :
    (p >>= f) c = .ok b c' ↔ ∃ a c₁, p c = .ok a c₁ ∧ f a c₁ = .ok b c' := by
  show EStateM.bind p f c = .ok b c' ↔ _
  unfold EStateM.bind
  cases h : p c with
  | ok a c₁ => simp
  | error e c₁ => simp

theorem bind_of_ok {f : α → Decoder β} {c c' : Cursor} {a : α} (h : p c = .ok a c') :
    (p >>= f) c = f a c' := by
  show EStateM.bind p f c = _
  unfold EStateM.bind
  rw [h]

theorem bind_of_error {f : α → Decoder β} {c c' : Cursor} {e : Fault} (h : p c = .error e c') :
    (p >>= f) c = .error e c' := by
  show EStateM.bind p f c = _
  unfold EStateM.bind
  rw [h]

/-- Of what comes second, only the run that the first one leads to matters. -/
theorem bind_eq_of {q : Decoder α} {f g : α → Decoder β} {c : Cursor} (h : p c = q c)
    (hf : ∀ a c', q c = .ok a c' → f a c' = g a c') : (p >>= f) c = (q >>= g) c := by
  cases hq : q c with
  | error e c' => rw [bind_of_error hq, bind_of_error (h.trans hq)]
  | ok a c' =>
      rw [bind_of_ok hq, bind_of_ok (h.trans hq)]
      exact hf a c' hq

/-- Whether a decoder succeeded can be told from its result. -/
instance (r : EStateM.Result Fault Cursor α) : Decidable (∃ a c, r = .ok a c) :=
  match r with
  | .ok a c => isTrue ⟨a, c, rfl⟩
  | .error .. => isFalse nofun

theorem ofResult_ok {r : Except Fault α} {c c' : Cursor} {a : α} :
    ofResult r c = .ok a c' ↔ r = .ok a ∧ c' = c := by
  cases r with
  | ok b =>
      show EStateM.Result.ok b c = .ok a c' ↔ _
      simp [eq_comm]
  | error e =>
      show EStateM.Result.error e c = .ok a c' ↔ _
      simp

/-! ### Formats -/

theorem Reads.congr {F G : Format α} (h : p.Reads F) (hFG : ∀ w a, F w a ↔ G w a) :
    p.Reads G := by
  refine ⟨?_, ?_⟩
  · intro c w t a hG ht
    exact h.accepts ((hFG w a).mpr hG) ht
  · intro c c' a hp
    obtain ⟨w, hF, hover⟩ := h.explains hp
    exact ⟨w, (hFG w a).mp hF, hover⟩

/--
The same format by other layouts: every layout of one kind has a counterpart of
the other, which is written alike and shows the same.
-/
theorem Reads.reshape {okX : X → Prop} {encodeX : X → List UInt8} {viewX : X → α}
    {okY : Y → Prop} {encodeY : Y → List UInt8} {viewY : Y → α}
    (h : p.Reads (written okX encodeX viewX))
    (hto : ∀ x, okX x → ∃ y, okY y ∧ encodeY y = encodeX x ∧ viewY y = viewX x)
    (hfrom : ∀ y, okY y → ∃ x, okX x ∧ encodeX x = encodeY y ∧ viewX x = viewY y) :
    p.Reads (written okY encodeY viewY) := by
  refine h.congr fun w a => ⟨?_, ?_⟩
  · intro h
    obtain ⟨x, hok, rfl, rfl⟩ := h
    exact hto x hok
  · intro h
    obtain ⟨y, hok, rfl, rfl⟩ := h
    exact hfrom y hok

/--
The same format by other layouts, each of which is built from one of the first kind, so
that strings and values are compared in one direction only.
-/
theorem Reads.rebuild {okX : X → Prop} {encodeX : X → List UInt8} {viewX : X → α}
    {okY : Y → Prop} {encodeY : Y → List UInt8} {viewY : Y → α}
    (h : p.Reads (written okX encodeX viewX)) (build : X → Y)
    (hbuild : ∀ x, okX x →
      okY (build x) ∧ encodeY (build x) = encodeX x ∧ viewY (build x) = viewX x)
    (hall : ∀ y, okY y → ∃ x, okX x ∧ build x = y) :
    p.Reads (written okY encodeY viewY) := by
  refine h.reshape (fun x hx => ⟨build x, hbuild x hx⟩) ?_
  intro y hy
  obtain ⟨x, hx, rfl⟩ := hall y hy
  obtain ⟨-, hencode, hview⟩ := hbuild x hx
  exact ⟨x, hx, hencode.symm, hview.symm⟩

/-- A success moves forwards and never loses track of what is left. -/
theorem Reads.measured {F : Format α} {c c' : Cursor} {a : α} (h : p.Reads F)
    (hp : p c = .ok a c') :
    c.offset ≤ c'.offset ∧ c'.offset + c'.remaining = c.offset + c.remaining := by
  obtain ⟨w, -, hover⟩ := h.explains hp
  have := hover.offset
  have := hover.remaining_eq
  omega

/-- A decoder of strings of one length moves by that length. -/
theorem Reads.remaining_eq {ok : X → Prop} {encode : X → List UInt8} {view : X → α} {n : Nat}
    {c c' : Cursor} {a : α} (h : p.Reads (written ok encode view))
    (hlen : ∀ x, (encode x).length = n) (hp : p c = .ok a c') :
    c.remaining = n + c'.remaining := by
  obtain ⟨-, ⟨x, -, rfl, -⟩, hover⟩ := h.explains hp
  rw [hover.remaining_eq, hlen]

/-- No success of the decoder leaves more of the input than there was. -/
def Forward (p : Decoder α) : Prop :=
  ∀ c a c', p c = .ok a c' → c'.remaining ≤ c.remaining

theorem Reads.forward {F : Format α} (h : p.Reads F) : p.Forward := by
  intro c a c' hp
  have := h.measured hp
  omega

theorem reads_pure (a : α) :
    (pure a : Decoder α).Reads (written (fun _ : Unit => True) (fun _ => []) fun _ => a) := by
  refine ⟨?_, ?_⟩
  · intro c w t b h ht
    obtain ⟨-, -, rfl, rfl⟩ := h
    exact ⟨c, rfl, .refl c⟩
  · intro c c' b h
    obtain ⟨rfl, rfl⟩ := pure_ok.mp h
    exact ⟨[], ⟨(), trivial, rfl, rfl⟩, .refl c⟩

/-- One layout after another; the second may depend on the first. -/
theorem Reads.seq {f : α → Decoder β} {okX : X → Prop} {encodeX : X → List UInt8} {viewX : X → α}
    {okY : X → Y → Prop} {encodeY : X → Y → List UInt8} {viewY : X → Y → β}
    (hp : p.Reads (written okX encodeX viewX))
    (hf : ∀ x, okX x → (f (viewX x)).Reads (written (okY x) (encodeY x) (viewY x))) :
    (p >>= f).Reads (written (fun z : X × Y => okX z.1 ∧ okY z.1 z.2)
      (fun z => encodeX z.1 ++ encodeY z.1 z.2) fun z => viewY z.1 z.2) := by
  refine ⟨?_, ?_⟩
  · intro c w t b h ht
    obtain ⟨⟨x, y⟩, ⟨hx, hy⟩, rfl, rfl⟩ := h
    rw [List.append_assoc] at ht
    obtain ⟨c₁, hp₁, hover₁⟩ := hp.accepts ⟨x, hx, rfl, rfl⟩ ht
    obtain ⟨c₂, hp₂, hover₂⟩ := (hf x hx).accepts ⟨y, hy, rfl, rfl⟩ (hover₁.rest_eq ht)
    exact ⟨c₂, bind_ok.mpr ⟨_, c₁, hp₁, hp₂⟩, hover₁.trans hover₂⟩
  · intro c c' b h
    obtain ⟨a, c₁, hp₁, hp₂⟩ := bind_ok.mp h
    obtain ⟨-, ⟨x, hx, rfl, rfl⟩, hover₁⟩ := hp.explains hp₁
    obtain ⟨-, ⟨y, hy, rfl, rfl⟩, hover₂⟩ := (hf x hx).explains hp₂
    exact ⟨_, ⟨(x, y), ⟨hx, hy⟩, rfl, rfl⟩, hover₁.trans hover₂⟩

/-- What comes second takes no bytes, but may ask for more and show another value. -/
theorem Reads.andThen {f : α → Decoder β} {okX okF : X → Prop} {encodeX : X → List UInt8}
    {viewX : X → α} {viewF : X → β} (hp : p.Reads (written okX encodeX viewX))
    (hf : ∀ x, okX x → (f (viewX x)).Reads
      (written (fun _ : Unit => okF x) (fun _ => []) fun _ => viewF x)) :
    (p >>= f).Reads (written (fun x => okX x ∧ okF x) encodeX viewF) := by
  refine (hp.seq hf).rebuild Prod.fst ?_ ?_
  · intro z h
    exact ⟨h, (List.append_nil _).symm, rfl⟩
  · intro x h
    exact ⟨(x, ()), h, rfl⟩

/-- A value that is changed after it has been read. -/
theorem Reads.map {okX : X → Prop} {encodeX : X → List UInt8} {viewX : X → α}
    (hp : p.Reads (written okX encodeX viewX)) (g : α → β) :
    (p >>= fun a => pure (g a)).Reads (written okX encodeX fun x => g (viewX x)) := by
  refine (hp.andThen fun x _ => reads_pure (g (viewX x))).rebuild id ?_ ?_
  · intro x h
    exact ⟨h.1, rfl, rfl⟩
  · intro x hx
    exact ⟨x, ⟨hx, trivial⟩, rfl⟩

theorem Reads.functorMap {okX : X → Prop} {encodeX : X → List UInt8} {viewX : X → α}
    (hp : p.Reads (written okX encodeX viewX)) (g : α → β) :
    (g <$> p).Reads (written okX encodeX fun x => g (viewX x)) := by
  rw [← bind_pure_comp]
  exact hp.map g

/-- A decoder that cannot succeed reads what is never well formed. -/
theorem reads_never {okX : X → Prop} {encodeX : X → List UInt8} {viewX : X → α}
    (hp : ∀ c a c', p c ≠ .ok a c') (hok : ∀ x, ¬ okX x) :
    p.Reads (written okX encodeX viewX) := by
  refine ⟨?_, ?_⟩
  · intro c w t a h
    obtain ⟨x, hx, -, -⟩ := h
    exact absurd hx (hok x)
  · intro c c' a h
    exact absurd h (hp c a c')

theorem failAt_ne_ok (n : Nat) (cause : Cause) (c : Cursor) (a : α) (c' : Cursor) :
    failAt n cause c ≠ .ok a c' := by
  intro h
  cases h

theorem failHere_ne_ok (cause : Cause) (c : Cursor) (a : α) (c' : Cursor) :
    failHere cause c ≠ .ok a c' := by
  intro h
  cases h

/-- A condition whose failure ends the reading holds where the reading succeeds. -/
theorem guarded_ok {P : Prop} [Decidable P] {stop : Decoder α}
    (hstop : ∀ c a c', stop c ≠ .ok a c') {c c' : Cursor} {a : α} :
    (if P then p else stop) c = .ok a c' ↔ P ∧ p c = .ok a c' := by
  by_cases hP : P
  · rw [if_pos hP, and_iff_right hP]
  · rw [if_neg hP]
    exact ⟨fun h => absurd h (hstop c a c'), fun h => absurd h.1 hP⟩

/-- A condition whose failure ends the reading becomes a condition on the layouts. -/
theorem Reads.guarded {okX : X → Prop} {encodeX : X → List UInt8} {viewX : X → α} {P : Prop}
    [Decidable P] {stop : Decoder α} (hstop : ∀ c a c', stop c ≠ .ok a c')
    (hp : P → p.Reads (written okX encodeX viewX)) :
    (if P then p else stop).Reads (written (fun x => P ∧ okX x) encodeX viewX) := by
  by_cases hP : P
  · rw [if_pos hP]
    exact (hp hP).congr fun w a => exists_congr fun x =>
      and_congr_left fun _ => (and_iff_right hP).symm
  · rw [if_neg hP]
    exact reads_never hstop fun x hx => hP hx.1

/-- Looking at the offset takes no bytes, and what is read does not depend on it. -/
theorem Reads.atOffset {f : Nat → Decoder β} {F : Format β} (h : ∀ n, (f n).Reads F) :
    (offset >>= f).Reads F := by
  refine ⟨?_, ?_⟩
  · intro c w t b hF ht
    exact (h c.offset).accepts hF ht
  · intro c c' b hf
    exact (h c.offset).explains hf

/-! ### Conditions

A query whose outcome is not read but looked up takes no bytes.  `Settles` says
when it succeeds and with what.
-/

/-- The result is the given value if the condition holds, and a fault if not. -/
def Settles (r : Except Fault α) (P : Prop) (a : α) : Prop :=
  ∀ b, r = .ok b ↔ P ∧ a = b

/-- When a query succeeds, and with which value, say all there is to know. -/
theorem settles_of_exists {r : Except Fault α} {P : Prop} {a : α} (h : (∃ b, r = .ok b) ↔ P)
    (hvalue : ∀ b, r = .ok b → a = b) : Settles r P a := by
  intro b
  refine ⟨fun hb => ⟨h.mp ⟨b, hb⟩, hvalue b hb⟩, ?_⟩
  intro hb
  obtain ⟨hP, rfl⟩ := hb
  obtain ⟨b, hr⟩ := h.mpr hP
  rw [hvalue b hr]
  exact hr

theorem Reads.resolve {r : Except Fault α} {P : Prop} {a : α} {f : α → Decoder β}
    {okX : X → Prop} {encodeX : X → List UInt8} {viewX : X → β} (hr : Settles r P a)
    (hf : P → (f a).Reads (written okX encodeX viewX)) :
    (ofResult r >>= f).Reads (written (fun x => P ∧ okX x) encodeX viewX) := by
  refine ⟨?_, ?_⟩
  · intro c w t b h ht
    obtain ⟨x, ⟨hP, hx⟩, rfl, rfl⟩ := h
    obtain ⟨c', hc', hover⟩ := (hf hP).accepts ⟨x, hx, rfl, rfl⟩ ht
    exact ⟨c', bind_ok.mpr ⟨a, c, ofResult_ok.mpr ⟨(hr a).mpr ⟨hP, rfl⟩, rfl⟩, hc'⟩, hover⟩
  · intro c c' b h
    obtain ⟨a', c₁, hr₁, hf₁⟩ := bind_ok.mp h
    obtain ⟨hra, rfl⟩ := ofResult_ok.mp hr₁
    obtain ⟨hP, rfl⟩ := (hr a').mp hra
    obtain ⟨w, ⟨x, hx, hw, hv⟩, hover⟩ := (hf hP).explains hf₁
    exact ⟨w, ⟨x, ⟨hP, hx⟩, hw, hv⟩, hover⟩

theorem reads_ofResult {r : Except Fault α} {P : Prop} {a : α} (hr : Settles r P a) :
    (ofResult r).Reads (written (fun _ : Unit => P) (fun _ => []) fun _ => a) := by
  rw [← bind_pure (ofResult r)]
  refine (Reads.resolve hr fun _ => reads_pure a).reshape ?_ ?_
  · intro _ h
    obtain ⟨hP, -⟩ := h
    exact ⟨(), hP, rfl, rfl⟩
  · intro _ hP
    exact ⟨(), ⟨hP, trivial⟩, rfl, rfl⟩

/-- A condition whose outcome is not used. -/
theorem Reads.require {r : Except Fault α} {P : Prop} {q : Decoder β} {okX : X → Prop}
    {encodeX : X → List UInt8} {viewX : X → β} (hr : (∃ a, r = .ok a) ↔ P)
    (hq : q.Reads (written okX encodeX viewX)) :
    (ofResult r >>= fun _ => q).Reads (written (fun x => P ∧ okX x) encodeX viewX) := by
  cases r with
  | ok a =>
      have hsettles : Settles (.ok a : Except Fault α) P a := by
        refine fun b => ⟨fun hb => ?_, fun hb => congrArg Except.ok hb.2⟩
        exact ⟨hr.mp ⟨a, rfl⟩, by cases hb; rfl⟩
      exact Reads.resolve hsettles fun _ => hq
  | error e =>
      refine reads_never ?_ ?_
      · intro c b c' h
        obtain ⟨_, _, h₁, -⟩ := bind_ok.mp h
        cases (ofResult_ok.mp h₁).1
      · intro x h
        obtain ⟨hP, -⟩ := h
        obtain ⟨a, ha⟩ := hr.mpr hP
        cases ha

end Decoder

end ClassFormat
