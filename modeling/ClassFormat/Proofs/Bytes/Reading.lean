/-
The readers of `Decoder` read what the writers of `Encoder` write.

Everything goes back to `take`, which reads the strings of one length.  A number
is a string of its width, and the conversion between the two is a bijection, so
one lemma about that conversion serves all widths and signs.  Lists follow by
induction on their length: each item stops where the next begins.
-/
import ClassFormat.Proofs.Bytes.Format

namespace ClassFormat.Decoder

variable {α β X Y : Type}

/-! ### Strings -/

theorem take_append {c : Cursor} {w t : List UInt8} (item : String) (h : c.rest = w ++ t) :
    take w.length item c = .ok w { c with offset := c.offset + w.length, rest := t } := by
  have htake : c.rest.take w.length = w := by rw [h, List.take_left]
  have hdrop : c.rest.drop w.length = t := by rw [h, List.drop_left]
  simp only [take, htake, hdrop, if_true]

theorem take_ok {n : Nat} {item : String} {c c' : Cursor} {w : List UInt8}
    (h : take n item c = .ok w c') : w.length = n ∧ c.Over w c' := by
  simp only [take] at h
  split at h
  · rename_i hlen
    simp only [EStateM.Result.ok.injEq] at h
    obtain ⟨rfl, rfl⟩ := h
    exact ⟨hlen, (List.take_append_drop n c.rest).symm, by rw [hlen]⟩
  · cases h

theorem reads_take (n : Nat) (item : String) :
    (take n item).Reads (written (fun w => w.length = n) id id) := by
  refine ⟨?_, ?_⟩
  · intro c w t a h ht
    obtain ⟨v, rfl, rfl, rfl⟩ := h
    exact ⟨_, take_append item ht, ht, rfl⟩
  · intro c c' w h
    obtain ⟨hlen, hover⟩ := take_ok h
    exact ⟨w, ⟨w, hlen, rfl, rfl⟩, hover⟩

/-- Remembering a stretch of the input changes nothing about what is read. -/
theorem pass_ok {n : Nat} {item : String} {c c' : Cursor} {w : List UInt8} :
    pass n item c = .ok w c' ↔ ∃ c₁, take n item c = .ok w c₁ ∧
      c' = { c₁ with passed := ⟨c.offset, n⟩ :: c₁.passed } := by
  show (take n item >>= fun bytes => modify _ >>= fun _ => pure bytes) c = _ ↔ _
  rw [bind_ok]
  refine ⟨?_, ?_⟩
  · intro h
    obtain ⟨v, c₁, htake, hrest⟩ := h
    cases hrest
    exact ⟨c₁, htake, rfl⟩
  · intro h
    obtain ⟨c₁, htake, rfl⟩ := h
    exact ⟨w, c₁, htake, rfl⟩

theorem reads_pass (n : Nat) (item : String) :
    (pass n item).Reads (written (fun w => w.length = n) id id) := by
  refine ⟨?_, ?_⟩
  · intro c w t a h ht
    obtain ⟨v, rfl, rfl, rfl⟩ := h
    exact ⟨_, pass_ok.mpr ⟨_, take_append item ht, rfl⟩, ht, rfl⟩
  · intro c c' w h
    obtain ⟨c₁, htake, rfl⟩ := pass_ok.mp h
    obtain ⟨hlen, hover⟩ := take_ok htake
    exact ⟨w, ⟨w, hlen, rfl, rfl⟩, hover.rest, hover.offset⟩

theorem reads_skip (n : Nat) (item : String) :
    (skip n item).Reads (written (fun w : List UInt8 => w.length = n) id fun _ => ()) :=
  (reads_pass n item).map fun _ => ()

/-! ### Numbers -/

/--
A number of a given width, for any reading of the bytes as a value that has an
inverse on the numbers of that width.
-/
theorem reads_number (width : Nat) (ofNat : Nat → α) (toNat : α → Nat)
    (hlt : ∀ a, toNat a < 256 ^ width) (hof : ∀ a, ofNat (toNat a) = a)
    (hto : ∀ n < 256 ^ width, toNat (ofNat n) = n) (item : String) :
    (take width item >>= fun w => pure (ofNat (bigEndian w))).Reads
      (written (fun _ => True) (fun a => bigEndianBytes width (toNat a)) id) := by
  refine ((reads_take width item).map fun w => ofNat (bigEndian w)).rebuild
    (fun w => ofNat (bigEndian w)) ?_ ?_
  · intro w h
    obtain rfl := h
    refine ⟨trivial, ?_, rfl⟩
    rw [hto _ (bigEndian_lt w)]
    exact bigEndianBytes_bigEndian w
  · intro a _
    refine ⟨bigEndianBytes width (toNat a), length_bigEndianBytes .., ?_⟩
    rw [bigEndian_bigEndianBytes width _ (hlt a), hof]

theorem reads_u1 (item : String) : (u1 item).Reads (written (fun _ => True) Encoder.u1 id) :=
  reads_number 1 UInt8.ofNat UInt8.toNat UInt8.toNat_lt (fun _ => UInt8.ofNat_toNat)
    (fun _ hn => UInt8.toNat_ofNat_of_lt' hn) item

theorem reads_u2 (item : String) : (u2 item).Reads (written (fun _ => True) Encoder.u2 id) :=
  reads_number 2 UInt16.ofNat UInt16.toNat UInt16.toNat_lt (fun _ => UInt16.ofNat_toNat)
    (fun _ hn => UInt16.toNat_ofNat_of_lt' hn) item

theorem reads_u4 (item : String) : (u4 item).Reads (written (fun _ => True) Encoder.u4 id) :=
  reads_number 4 UInt32.ofNat UInt32.toNat UInt32.toNat_lt (fun _ => UInt32.ofNat_toNat)
    (fun _ hn => UInt32.toNat_ofNat_of_lt' hn) item

theorem reads_i4 (item : String) : (i4 item).Reads (written (fun _ => True) Encoder.i4 id) := by
  refine reads_number 4 Int32.ofNat (fun n => n.toUInt32.toNat) (fun n => n.toUInt32.toNat_lt) ?_
    (fun _ hn => UInt32.toNat_ofNat_of_lt' hn) item
  intro n
  rw [← UInt32.toInt32_ofNat', UInt32.ofNat_toNat, Int32.toInt32_toUInt32]

theorem reads_i8 (item : String) : (i8 item).Reads (written (fun _ => True) Encoder.i8 id) := by
  refine reads_number 8 Int64.ofNat (fun n => n.toUInt64.toNat) (fun n => n.toUInt64.toNat_lt) ?_
    (fun _ hn => UInt64.toNat_ofNat_of_lt' hn) item
  intro n
  rw [← UInt64.toInt64_ofNat', UInt64.ofNat_toNat, Int64.toInt64_toUInt64]

theorem reads_f4 (item : String) : (f4 item).Reads (written (fun _ => True) Encoder.f4 id) :=
  reads_number 4 (fun n => Binary32.mk (.ofNat n)) (fun x => x.bits.toNat)
    (fun x => x.bits.toNat_lt) (fun _ => congrArg Binary32.mk UInt32.ofNat_toNat)
    (fun _ hn => UInt32.toNat_ofNat_of_lt' hn) item

theorem reads_f8 (item : String) : (f8 item).Reads (written (fun _ => True) Encoder.f8 id) :=
  reads_number 8 (fun n => Binary64.mk (.ofNat n)) (fun x => x.bits.toNat)
    (fun x => x.bits.toNat_lt) (fun _ => congrArg Binary64.mk UInt64.ofNat_toNat)
    (fun _ hn => UInt64.toNat_ofNat_of_lt' hn) item

theorem remaining_of_u1 {item : String} {c c' : Cursor} {b : UInt8} (h : u1 item c = .ok b c') :
    c.remaining = 1 + c'.remaining :=
  (reads_u1 item).remaining_eq Encoder.length_u1 h

theorem remaining_of_u2 {item : String} {c c' : Cursor} {n : UInt16}
    (h : u2 item c = .ok n c') : c.remaining = 2 + c'.remaining :=
  (reads_u2 item).remaining_eq Encoder.length_u2 h

/-! ### Lists -/

/-- Items are read one after the other, each where those before it end. -/
theorem times_eq_of {p q : Decoder α} {n : Nat} {c : Cursor}
    (h : ∀ i < n, ∀ before c', times i q c = .ok before c' → p c' = q c') :
    times n p c = times n q c := by
  induction n generalizing c with
  | zero => rfl
  | succ n ih =>
      refine bind_eq_of (h 0 (Nat.zero_lt_succ n) [] c rfl) fun a c₁ hfirst => ?_
      refine bind_eq_of (ih fun i hi before c' hbefore => ?_) fun _ _ _ => rfl
      apply h (i + 1) (Nat.succ_lt_succ hi) (a :: before) c'
      exact bind_ok.mpr ⟨a, c₁, hfirst, bind_ok.mpr ⟨before, c', hbefore, rfl⟩⟩

theorem Forward.times {p : Decoder α} (h : p.Forward) (n : Nat) : (times n p).Forward := by
  induction n with
  | zero =>
      intro c as c' hp
      cases hp
      exact Nat.le_refl _
  | succ n ih =>
      intro c as c' hp
      obtain ⟨a, c₁, hfirst, hp⟩ := bind_ok.mp hp
      obtain ⟨rest, _, hrest, hp⟩ := bind_ok.mp hp
      cases hp
      exact Nat.le_trans (ih c₁ rest c' hrest) (h c a c₁ hfirst)

theorem reads_times {item : Decoder α} {ok : X → Prop} {encode : X → List UInt8} {view : X → α}
    (h : item.Reads (written ok encode view)) (n : Nat) :
    (times n item).Reads (written (fun xs : List X => xs.length = n ∧ ∀ x ∈ xs, ok x)
      (fun xs => xs.flatMap encode) fun xs => xs.map view) := by
  induction n with
  | zero =>
      refine (reads_pure []).reshape ?_ ?_
      · intro _ _
        exact ⟨[], by simp, rfl, rfl⟩
      · intro xs h
        obtain ⟨hlen, -⟩ := h
        rw [List.length_eq_zero_iff.mp hlen]
        exact ⟨(), trivial, rfl, rfl⟩
  | succ n ih =>
      refine (h.seq fun x _ => ih.map fun as => view x :: as).rebuild
        (fun z => z.1 :: z.2) ?_ ?_
      · intro z h
        obtain ⟨hx, hlen, hxs⟩ := h
        exact ⟨⟨by simp [hlen], List.forall_mem_cons.mpr ⟨hx, hxs⟩⟩, rfl, rfl⟩
      · intro xs h
        obtain ⟨hlen, hxs⟩ := h
        cases xs with
        | nil => simp at hlen
        | cons x xs =>
            obtain ⟨hx, hxs⟩ := List.forall_mem_cons.mp hxs
            exact ⟨(x, xs), ⟨hx, by simpa using hlen, hxs⟩, rfl⟩

section Counted

variable {item : Decoder α} {ok : X → Prop} {encode : X → List UInt8} {view : X → α}

/-- A list whose count, a number of two bytes, comes first. -/
theorem reads_counted (h : item.Reads (written ok encode view)) (label : String) :
    (u2 label >>= fun n => times n.toNat item).Reads
      (written (fun xs : List X => xs.length < 65536 ∧ ∀ x ∈ xs, ok x)
        (Encoder.counted encode) fun xs => xs.map view) := by
  refine ((reads_u2 label).seq fun n _ => reads_times h n.toNat).rebuild Prod.snd ?_ ?_
  · intro z h
    obtain ⟨n, xs⟩ := z
    obtain ⟨-, hlen, hxs⟩ := h
    have hlen' : xs.length = n.toNat := hlen
    refine ⟨⟨by rw [hlen']; exact n.toNat_lt, hxs⟩, ?_, rfl⟩
    show Encoder.u2 (.ofNat xs.length) ++ _ = Encoder.u2 n ++ _
    rw [hlen', UInt16.ofNat_toNat]
  · intro xs h
    obtain ⟨hlen, hxs⟩ := h
    exact ⟨(.ofNat xs.length, xs), ⟨trivial, (UInt16.toNat_ofNat_of_lt' hlen).symm, hxs⟩, rfl⟩

/-- A counted list and what follows it. -/
theorem Reads.seqCounted {f : List α → Decoder β} {okY : List X → Y → Prop}
    {encodeY : List X → Y → List UInt8} {viewY : List X → Y → β}
    (h : item.Reads (written ok encode view)) (label : String)
    (hf : ∀ xs : List X, (xs.length < 65536 ∧ ∀ x ∈ xs, ok x) →
      (f (xs.map view)).Reads (written (okY xs) (encodeY xs) (viewY xs))) :
    (u2 label >>= fun n => times n.toNat item >>= f).Reads
      (written (fun z : List X × Y =>
          (z.1.length < 65536 ∧ ∀ x ∈ z.1, ok x) ∧ okY z.1 z.2)
        (fun z => Encoder.counted encode z.1 ++ encodeY z.1 z.2) fun z => viewY z.1 z.2) := by
  rw [← bind_assoc]
  exact (reads_counted h label).seq hf

/-- A counted list that is changed after it has been read. -/
theorem reads_counted_map (h : item.Reads (written ok encode view)) (label : String)
    (g : List α → β) :
    (u2 label >>= fun n => times n.toNat item >>= fun as => pure (g as)).Reads
      (written (fun xs : List X => xs.length < 65536 ∧ ∀ x ∈ xs, ok x)
        (Encoder.counted encode) fun xs => g (xs.map view)) := by
  rw [← bind_assoc]
  exact (reads_counted h label).map g

end Counted

/-- The same check for every item of a list. -/
theorem reads_forM {f : X → Decoder PUnit} {P : X → Prop}
    (h : ∀ x, (f x).Reads (written (fun _ : Unit => P x) (fun _ => []) fun _ => ())) :
    ∀ xs : List X, (xs.forM f).Reads
      (written (fun _ : Unit => ∀ x ∈ xs, P x) (fun _ => []) fun _ => ()) := by
  intro xs
  induction xs with
  | nil =>
      refine (reads_pure PUnit.unit).reshape ?_ ?_
      · intro _ _
        exact ⟨(), by simp, rfl, rfl⟩
      · intro _ _
        exact ⟨(), trivial, rfl, rfl⟩
  | cons x xs ih =>
      refine ((h x).seq fun _ _ => ih).reshape ?_ ?_
      · intro z h
        obtain ⟨⟨⟩, ⟨⟩⟩ := z
        obtain ⟨hx, hxs⟩ := h
        exact ⟨(), List.forall_mem_cons.mpr ⟨hx, hxs⟩, rfl, rfl⟩
      · intro _ hok
        exact ⟨((), ()), List.forall_mem_cons.mp hok, rfl, rfl⟩

end ClassFormat.Decoder
