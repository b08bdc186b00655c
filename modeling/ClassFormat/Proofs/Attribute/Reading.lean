/-
Attributes are read from their layouts.

A payload reader may look at more bytes than its attribute declares while it runs; the
frame only compares, afterwards, how far the cursor has come.  Since a reader that
succeeds has moved over a string of its format, the comparison says that this string
has the declared length, and then the layout of the attribute is the one that was
there.  This holds for any reader, so the frame is dealt with once.

The tables of the owners and the lists of names that layouts go by are matched up
here, so a name that is looked up gives a reader and the kind of layout it reads.
-/
import ClassFormat.Proofs.Annotation.Reading
import ClassFormat.Proofs.Attribute.Layout

namespace ClassFormat

open Decoder

variable {pool : ConstantPool}

/-! ### Frames -/

namespace Attribute

variable {P Payload K α : Type} {ok : P → Prop} {encode : P → List UInt8} {view : P → Payload}

theorem framed_ok {name : Text} {n : Nat} {payload : Decoder Payload} {c c' : Cursor}
    {a : Attribute Payload} :
    framed name n payload c = .ok a c' ↔ ∃ p, n ≤ c.rest.length ∧ payload c = .ok p c' ∧
      c'.offset - c.offset = n ∧ a = ⟨name, n, p⟩ := by
  show (if c.rest.length < n then failAt c.offset (.attributeTruncated name n c.rest.length)
      else payload >>= fun p => offset >>= fun after =>
        if after - c.offset = n then pure ⟨name, n, p⟩
        else failAt c.offset (.attributeLength name n (after - c.offset)) :
      Decoder (Attribute Payload)) c = .ok a c' ↔ _
  rw [← ite_not, guarded_ok (failAt_ne_ok _ _), Nat.not_lt, bind_ok]
  refine ⟨?_, ?_⟩
  · intro h
    obtain ⟨hle, p, c₁, hp, hframe⟩ := h
    obtain ⟨hmoved, hpure⟩ := (guarded_ok (failAt_ne_ok _ _)).mp hframe
    obtain ⟨rfl, rfl⟩ := pure_ok.mp hpure
    exact ⟨p, hle, hp, hmoved, rfl⟩
  · intro h
    obtain ⟨p, hle, hp, hmoved, rfl⟩ := h
    exact ⟨hle, p, c', hp, (guarded_ok (failAt_ne_ok _ _)).mpr ⟨hmoved, rfl⟩⟩

/-- The frame admits the layouts of the declared length and no others. -/
theorem reads_framed {payload : Decoder Payload} (h : payload.Reads (written ok encode view))
    (name : Text) (n : Nat) :
    (framed name n payload).Reads (written (fun x => ok x ∧ (encode x).length = n) encode
      fun x => ⟨name, (encode x).length, view x⟩) := by
  refine ⟨?_, ?_⟩
  · intro c w t a h ht
    obtain ⟨x, ⟨hok, hlen⟩, rfl, rfl⟩ := h
    obtain ⟨c', hp, hover⟩ := h.accepts ⟨x, hok, rfl, rfl⟩ ht
    refine ⟨c', framed_ok.mpr ⟨view x, ?_, hp, ?_, congrArg (Attribute.mk name · _) hlen⟩, hover⟩
    · rw [ht, List.length_append]
      omega
    · rw [hover.offset]
      omega
  · intro c c' a hframed
    obtain ⟨p, -, hp, hmoved, rfl⟩ := framed_ok.mp hframed
    obtain ⟨w, ⟨x, hok, rfl, rfl⟩, hover⟩ := h.explains hp
    have hlen : (encode x).length = n := by
      rw [← hmoved, hover.offset]
      omega
    exact ⟨_, ⟨x, ⟨hok, hlen⟩, rfl, congrArg (Attribute.mk name · _) hlen⟩, hover⟩

/-! ### Tables -/

theorem lookup_map_snd (f : K → α) (name : Text) (names : List (Text × K)) :
    (names.map fun p => (p.1, f p.2)).lookup name = (names.lookup name).map f := by
  induction names with
  | nil => rfl
  | cons p names ih =>
      rw [List.map_cons, List.lookup_cons, List.lookup_cons, ih]
      split <;> rfl

/--
A table that has a reader for each kind of payload, under the names that belong to
the kind.  What is under no name of the table is skipped.
-/
theorem reads_decodeBy (names : List (Text × K)) (reader : K → Decoder Payload)
    {kind? : P → Option K} {other : Payload}
    (hknown : ∀ k, (reader k).Reads
      (written (fun x => kind? x = some k ∧ ok x) encode view))
    (hother : ∀ n, (skip n "bytes" >>= fun _ => pure other).Reads
      (written (fun x => (kind? x = none ∧ ok x) ∧ (encode x).length = n) encode view))
    (name : Text) (n : Nat) :
    (decodeBy (names.map fun p => (p.1, reader p.2)) other name n).Reads
      (written (fun x => (kind? x = names.lookup name ∧ ok x) ∧ (encode x).length = n) encode
        fun x => ⟨name, (encode x).length, view x⟩) := by
  unfold decodeBy
  rw [lookup_map_snd]
  cases names.lookup name with
  | some k => exact reads_framed (hknown k) name n
  | none =>
      -- What is skipped has the declared length as it is, so the frame adds nothing.
      refine (reads_framed (hother n) name n).rebuild id (fun _ h => ⟨h.1, rfl, rfl⟩) ?_
      intro x h
      exact ⟨x, ⟨h, h.2⟩, rfl⟩

/-! ### Lists -/

/-- A list of attributes, given what is read after a name and a length. -/
theorem reads_decodeList {body : Text → Nat → Decoder α} {okBy : Text → P → Prop}
    {viewBy : Text → P → α}
    (h : ∀ name n, (body name n).Reads
      (written (fun x => okBy name x ∧ (encode x).length = n) encode (viewBy name))) :
    (decodeList pool body).Reads
      (written (fun xs : List (AttributeLayout P) => xs.length < 65536 ∧
          ∀ x ∈ xs, x.WellFormed pool encode okBy)
        (Encoder.counted (AttributeLayout.encode encode))
        fun xs => xs.map fun x => viewBy (x.name pool) x.payload) := by
  have hitem : (do
      let name ← pool.decodeText "attribute_name_index"
      let length ← u4 "attribute_length"
      body name length.toNat : Decoder α).Reads
      (written (AttributeLayout.WellFormed pool encode okBy) (AttributeLayout.encode encode)
        fun x => viewBy (x.name pool) x.payload) := by
    refine ((ConstantPool.reads_decodeText _).seq fun index _ => (reads_u4 _).seq fun length _ =>
      h (pool.textAt index) length.toNat).rebuild (fun z => ⟨z.1, z.2.2⟩) ?_ ?_
    · intro z h
      obtain ⟨index, length, x⟩ := z
      obtain ⟨hindex, -, hok, hlen⟩ := h
      have hlen' : (encode x).length = length.toNat := hlen
      refine ⟨⟨hindex, ?_, hok⟩, ?_, rfl⟩
      · show (encode x).length < 4294967296
        rw [hlen']
        exact length.toNat_lt
      · show Encoder.u2 index ++ (Encoder.u4 (.ofNat (encode x).length) ++ encode x) =
          Encoder.u2 index ++ (Encoder.u4 length ++ encode x)
        rw [hlen', UInt32.ofNat_toNat]
    · intro z h
      obtain ⟨hindex, hfits, hok⟩ := h
      exact ⟨(z.nameIndex, .ofNat (encode z.payload).length, z.payload),
        ⟨hindex, trivial, hok, (UInt32.toNat_ofNat_of_lt' hfits).symm⟩, rfl⟩
  exact reads_counted hitem "attributes_count"

end Attribute

/-! ### Optional references -/

theorem reads_resolveOptional {resolve : Int → Except Fault Text} {found : UInt16 → Text}
    {tags : List Tag} (index : UInt16)
    (h : Settles (resolve index.toNat) (pool.RefersTo index tags) (found index)) :
    (resolveOptional resolve index).Reads
      (written (fun _ : Unit => pool.MayReferTo index tags) (fun _ => [])
        fun _ => ConstantPool.optionalAt found index) := by
  unfold resolveOptional ConstantPool.MayReferTo ConstantPool.optionalAt
  by_cases hzero : index = 0
  · simp only [if_pos hzero]
    refine (reads_pure none).reshape ?_ ?_
    · intro _ _
      exact ⟨(), fun hne => absurd hzero hne, rfl, rfl⟩
    · intro _ _
      exact ⟨(), trivial, rfl, rfl⟩
  · simp only [if_neg hzero]
    refine ((reads_ofResult h).map some).reshape ?_ ?_
    · intro _ href
      exact ⟨(), fun _ => href, rfl, rfl⟩
    · intro _ href
      exact ⟨(), href hzero, rfl, rfl⟩

theorem reads_optionalClass (hp : pool.Linked) (index : UInt16) :
    (resolveOptional pool.className index).Reads
      (written (fun _ : Unit => pool.MayReferTo index [.classRef]) (fun _ => [])
        fun _ => ConstantPool.optionalAt pool.classNameAt index) :=
  reads_resolveOptional index (ConstantPool.settles_className hp index)

theorem reads_optionalText (index : UInt16) :
    (resolveOptional pool.utf8 index).Reads
      (written (fun _ : Unit => pool.MayReferTo index [.utf8]) (fun _ => [])
        fun _ => ConstantPool.optionalAt pool.textAt index) :=
  reads_resolveOptional index (ConstantPool.settles_utf8 index)

/-! ### Method bodies -/

namespace Code

theorem reads_decodeLineNumber :
    decodeLineNumber.Reads (written (fun _ => True) LineNumber.encode id) := by
  refine ((reads_u2 "u2").seq fun position _ =>
    (reads_u2 "u2").map (LineNumber.mk position)).rebuild (fun z => ⟨z.1, z.2⟩)
      (fun _ _ => ⟨trivial, rfl, rfl⟩) ?_
  intro x _
  exact ⟨(x.position, x.line), ⟨trivial, trivial⟩, rfl⟩

theorem reads_decodeAttribute (name : Text) (n : Nat) :
    (decodeAttribute name n).Reads
      (written (fun x => CodePayloadLayout.Fits name x ∧ x.encode.length = n)
        CodePayloadLayout.encode
        fun x => ⟨name, x.encode.length, x.view⟩) := by
  refine Attribute.reads_decodeBy CodePayloadLayout.interpreted (fun _ => decodeLineNumbers)
    ?_ ?_ name n
  · intro _
    refine (reads_counted_map reads_decodeLineNumber _ CodePayload.lineNumbers).rebuild
      .lineNumbers ?_ ?_
    · intro entries h
      obtain ⟨hlen, -⟩ := h
      exact ⟨⟨rfl, hlen⟩, rfl, congrArg CodePayload.lineNumbers (List.map_id entries).symm⟩
    · intro x h
      obtain ⟨hkind, hok⟩ := h
      cases x with
      | lineNumbers entries => exact ⟨entries, ⟨hok, fun _ _ => trivial⟩, rfl⟩
      | other => cases hkind
  · intro n
    refine ((reads_skip n "bytes").map fun _ => CodePayload.uninterpreted).rebuild .other
      (fun _ hlen => ⟨⟨⟨rfl, trivial⟩, hlen⟩, rfl, rfl⟩) ?_
    intro x h
    obtain ⟨⟨hkind, -⟩, hlen⟩ := h
    cases x with
    | lineNumbers => cases hkind
    | other bytes => exact ⟨bytes, hlen, rfl⟩

theorem reads_decodeHandler (hp : pool.Linked) :
    (decodeHandler pool).Reads
      (written (HandlerLayout.WellFormed pool) HandlerLayout.encode
        (HandlerLayout.view pool)) := by
  refine ((reads_u2 "u2").seq fun first _ => (reads_u2 "u2").seq fun last _ =>
    (reads_u2 "u2").seq fun handler _ => (reads_u2 "u2").seq fun catchType _ =>
      (reads_optionalClass hp catchType).map
        (ExceptionHandler.mk first last handler)).rebuild
          (fun z => ⟨z.1, z.2.1, z.2.2.1, z.2.2.2.1⟩) ?_ ?_
  · intro z h
    obtain ⟨first, last, handler, catchType, ⟨⟩⟩ := z
    obtain ⟨-, -, -, -, hcatch⟩ := h
    refine ⟨hcatch, ?_, rfl⟩
    show _ = Encoder.u2 first ++ (Encoder.u2 last ++ (Encoder.u2 handler ++
      (Encoder.u2 catchType ++ [])))
    rw [List.append_nil]
    rfl
  · intro x hcatch
    exact ⟨(x.first, x.last, x.handler, x.catchType, ()),
      ⟨trivial, trivial, trivial, trivial, hcatch⟩, rfl⟩

theorem reads_decode (hp : pool.Linked) :
    (Code.decode pool).Reads
      (written (CodeLayout.WellFormed pool) CodeLayout.encode (CodeLayout.view pool)) := by
  refine ((reads_u2 "max_stack").seq fun maxStack _ => (reads_u2 "max_locals").seq
    fun maxLocals _ => (reads_u4 "code_length").seq fun size _ =>
    (reads_pass size.toNat "code").seq fun instructions _ =>
    Reads.seqCounted (reads_decodeHandler hp) "exception_table_length" fun handlers _ =>
    (Attribute.reads_decodeList reads_decodeAttribute).map
      (Code.mk maxStack maxLocals instructions (handlers.map (HandlerLayout.view pool)))).rebuild
        (fun z => ⟨z.1, z.2.1, z.2.2.2.1, z.2.2.2.2.1, z.2.2.2.2.2⟩) ?_ ?_
  · intro z h
    obtain ⟨maxStack, maxLocals, size, instructions, handlers, attributes⟩ := z
    obtain ⟨-, -, -, hsize, hhandlers, hattributes⟩ := h
    have hsize' : instructions.length = size.toNat := hsize
    refine ⟨⟨?_, hhandlers.1, hhandlers.2, hattributes.1, hattributes.2⟩, ?_, rfl⟩
    · show instructions.length < 4294967296
      rw [hsize']
      exact size.toNat_lt
    · show Encoder.u2 maxStack ++ (Encoder.u2 maxLocals ++
        ((Encoder.u4 (.ofNat instructions.length) ++ instructions) ++ _)) = _
      rw [hsize', UInt32.ofNat_toNat, List.append_assoc]
      rfl
  · intro x hok
    exact ⟨(x.maxStack, x.maxLocals, .ofNat x.instructions.length, x.instructions, x.handlers,
      x.attributes), ⟨trivial, trivial, trivial, (UInt32.toNat_ofNat_of_lt' hok.instructions).symm,
        ⟨hok.handlerCount, hok.handlers⟩, hok.attributeCount, hok.attributes⟩, rfl⟩

end Code

end ClassFormat
