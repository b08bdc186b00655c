/-
Annotations as bytes, read and merged.

The bytes of a tree are read as that tree, with texts and constants in place of indices, and then
its repeated names are merged.  An overwritten value is read like any other, so what is read ends
where the bytes do.  An attribute is a counted list of such trees.
-/
import ClassFormat.Attribute.Decode
import ClassFormat.Proofs.Annotation.Reading
import ClassFormat.Proofs.Annotation.Repeated

namespace ClassFormat

open Decoder

variable {pool : ConstantPool}

namespace Annotation

/-- Of the tree that its layout shows, the reader gives what it merges to. -/
theorem decode_merge_encode {x : AnnotationLayout} (h : x.WellFormed pool) {c : Cursor}
    {t : List UInt8} (ht : c.rest = x.encode ++ t) :
    ∃ a c', (merge <$> decode pool) c = .ok a c' ∧
      c'.rest = t ∧ c'.offset = c.offset + x.encode.length ∧
      ∀ b, (x.view pool).MergesTo b ↔ b = a := by
  obtain ⟨c', hread, hover⟩ :=
    ((reads_decode pool).functorMap merge).accepts ⟨x, h, rfl, rfl⟩ ht
  exact ⟨_, c', hread, hover.rest_eq ht, hover.offset, fun _ => mergesTo_iff⟩

theorem forall₂_mergesTo (xs : List AnnotationLayout) :
    List.Forall₂ (fun x a => ∀ b, (x.view pool).MergesTo b ↔ b = a) xs
      ((xs.map (AnnotationLayout.view pool)).map merge) := by
  rw [List.map_map, List.forall₂_map_right_iff, List.forall₂_same]
  exact fun _ _ _ => mergesTo_iff

/-- The annotations of an attribute are read one after the other. -/
theorem decodeAnnotations_counted {xs : List AnnotationLayout} (hlen : xs.length < 65536)
    (h : ∀ x ∈ xs, x.WellFormed pool) {c : Cursor} {t : List UInt8}
    (ht : c.rest = Encoder.counted AnnotationLayout.encode xs ++ t) :
    ∃ as c', Payload.decodeAnnotations pool c = .ok (.annotations as) c' ∧
      c'.rest = t ∧
      c'.offset = c.offset + (Encoder.counted AnnotationLayout.encode xs).length ∧
      List.Forall₂ (fun x a => ∀ b, (x.view pool).MergesTo b ↔ b = a) xs as := by
  have hreads := reads_counted_map (reads_decode pool) "num_annotations" fun found =>
    Payload.annotations (found.map merge)
  obtain ⟨c', hread, hover⟩ := hreads.accepts ⟨xs, ⟨hlen, h⟩, rfl, rfl⟩ ht
  exact ⟨_, c', hread, hover.rest_eq ht, hover.offset, forall₂_mergesTo xs⟩

/--
**A tree of annotations is read exactly as it is written**, whatever follows it, and so is a
list of them.  Of the tree that its layout shows, the reader gives what it merges to, and nothing
else does.
-/
theorem decode_merge_exact (pool : ConstantPool) :
    (∀ x : AnnotationLayout, x.WellFormed pool → ∀ (c : Cursor) (t : List UInt8),
      c.rest = x.encode ++ t →
        ∃ a c', (merge <$> decode pool) c = .ok a c' ∧
          c'.rest = t ∧ c'.offset = c.offset + x.encode.length ∧
          ∀ b, (x.view pool).MergesTo b ↔ b = a) ∧
    ∀ xs : List AnnotationLayout, xs.length < 65536 → (∀ x ∈ xs, x.WellFormed pool) →
      ∀ (c : Cursor) (t : List UInt8),
        c.rest = Encoder.counted AnnotationLayout.encode xs ++ t →
          ∃ as c', Payload.decodeAnnotations pool c = .ok (.annotations as) c' ∧
            c'.rest = t ∧
            c'.offset = c.offset + (Encoder.counted AnnotationLayout.encode xs).length ∧
            List.Forall₂ (fun x a => ∀ b, (x.view pool).MergesTo b ↔ b = a) xs as :=
  ⟨fun _ h _ _ ht => decode_merge_encode h ht,
    fun _ hlen h _ _ ht => decodeAnnotations_counted hlen h ht⟩

/--
Thirteen kinds of values and a name that occurs three times, on two levels and under two
indices.
-/
theorem decode_merge_exact_repeated :
    let pool : ConstantPool := .ofEntries [.utf8 "a", .utf8 "b", .integer 7, .long 8,
      .float ⟨0x3F800000⟩, .double ⟨0x3FF0000000000000⟩, .utf8 "a"]
    let x : AnnotationLayout := ⟨2, [
      ⟨1, .literal .int 3⟩,
      ⟨2, .nested ⟨1, [
        ⟨1, .string 2⟩,
        ⟨9, .array [.literal .byte 3, .literal .char 3, .literal .double 7, .literal .float 6,
          .literal .long 4, .literal .short 3, .literal .boolean 3, .classInfo 2]⟩]⟩⟩,
      ⟨9, .enumConstant 1 2⟩]⟩
    let a : Annotation := ⟨"b", [
      ⟨"a", .enumConstant "a" "b"⟩,
      ⟨"b", .nested ⟨"a", [⟨"a", .array [.literal .byte (.integer 7), .literal .char (.integer 7),
        .literal .double (.double ⟨0x3FF0000000000000⟩), .literal .float (.float ⟨0x3F800000⟩),
        .literal .long (.long 8), .literal .short (.integer 7), .literal .boolean (.integer 7),
        .classInfo "b"]⟩]⟩⟩]⟩
    x.WellFormed pool ∧
      (∃ c', (merge <$> decode pool) (.start (x.encode ++ [0xFF])) = .ok a c' ∧
        c'.rest = [0xFF]) ∧
      ∃ c', Payload.decodeAnnotations pool
          (.start (Encoder.counted AnnotationLayout.encode [x] ++ [0xFF])) =
            .ok (.annotations [a]) c' ∧
        c'.rest = [0xFF] := by
  intro pool x a
  have hok : x.WellFormed pool := by decide +kernel
  obtain ⟨hone, hall⟩ := decode_merge_exact pool
  refine ⟨hok, ?_, ?_⟩
  · obtain ⟨a', c', hread, hrest, -, hmerges⟩ := hone x hok (.start (x.encode ++ [0xFF])) _ rfl
    have ha : a = a' := (hmerges a).mp (x.view pool).mergesTo_merge
    exact ⟨c', ha ▸ hread, hrest⟩
  · obtain ⟨as, c', hread, hrest, -, hmerges⟩ := hall [x] (by decide) (by simpa using hok)
      (.start (Encoder.counted AnnotationLayout.encode [x] ++ [0xFF])) _ rfl
    obtain ⟨a', as, hx, hnil, rfl⟩ := List.forall₂_cons_left_iff.mp hmerges
    rw [List.forall₂_nil_left_iff.mp hnil] at hread
    have ha : a = a' := (hx a).mp (x.view pool).mergesTo_merge
    exact ⟨c', ha ▸ hread, hrest⟩

end Annotation

end ClassFormat
