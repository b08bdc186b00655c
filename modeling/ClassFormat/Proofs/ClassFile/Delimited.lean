/-
Where a class file ends.

The bytes of a class file say themselves where they end.  No part of them that leaves
out the last byte is a class file, and reading it shows as much: the input ends too
early.  Bytes that follow are noticed right where the class ends, or left alone if the
policy allows for them.

Both come from one fact: up to where the input is cut, the body of a class file is read
alike whatever comes after it.  The same fact says that every other fault is final.
-/
import ClassFormat.Proofs.Bytes.Extension
import ClassFormat.Proofs.ClassFile.Congruence
import ClassFormat.Proofs.ClassFile.RoundTrip
import ClassFormat.Proofs.Result

namespace ClassFormat.ClassFile

open Decoder

variable {policy : ReadPolicy} {bytes : List UInt8} {c : ClassFile} {k : Cursor}

theorem ofBytes_of_body_ok (h : decodeBody policy (.start bytes) = .ok c k) :
    ofBytes policy bytes =
      if k.remaining = 0 ∨ policy.allowTrailing = true then .ok c
      else .error (.located (.trailingBytes k.remaining) k.offset) := by
  have hdecode : decode policy (.start bytes) =
      (if (k.remaining = 0 || policy.allowTrailing) = true then pure c
        else failHere (.trailingBytes k.remaining) : Decoder ClassFile) k := bind_of_ok h
  unfold ofBytes
  rw [hdecode]
  simp only [Bool.or_eq_true, decide_eq_true_eq]
  by_cases hend : k.remaining = 0 ∨ policy.allowTrailing = true
  · rw [if_pos hend, if_pos hend]
    rfl
  · rw [if_neg hend, if_neg hend]
    rfl

theorem ofBytes_of_body_error {e : Fault} (h : decodeBody policy (.start bytes) = .error e k) :
    ofBytes policy bytes = .error e := by
  have hdecode : decode policy (.start bytes) = .error e k := bind_of_error h
  unfold ofBytes
  rw [hdecode]

/-- **The body of a class file is read alike whatever comes after it.** -/
theorem extends_decodeBody (policy : ReadPolicy) :
    Extends Eq (decodeBody policy) (decodeBody policy) := by
  refine extension.mono (decodeBody_respects extension policy) fun c d h => ?_
  have hsame : c.mapInstructions id = d.mapInstructions id := h
  rwa [mapInstructions_id, mapInstructions_id] at hsame

/-- A class that fills its file ends at the last byte. -/
theorem body_of_ofBytes (hpolicy : policy.allowTrailing = false)
    (h : ofBytes policy bytes = .ok c) :
    ∃ k, decodeBody policy (.start bytes) = .ok c k ∧ k.rest = [] ∧ k.offset = bytes.length := by
  obtain ⟨k, hbody, hend⟩ := ofBytes_ok_iff.mp h
  have hrest : k.rest = [] := hend.resolve_right (by simp [hpolicy])
  obtain ⟨w, -, hover⟩ := reads_decodeBody.explains hbody
  refine ⟨k, hbody, hrest, ?_⟩
  have hbytes : bytes = w := by
    have hbytes := hover.rest
    rwa [hrest, List.append_nil] at hbytes
  rw [hover.offset, hbytes]
  exact Nat.zero_add _

/-- The body of a file that goes on is read as before. -/
theorem body_append (h : decodeBody policy (.start bytes) = .ok c k) (t : List UInt8) :
    decodeBody policy (.start (bytes ++ t)) = .ok c (k.followedBy t) := by
  have hext := extends_decodeBody policy t (.start bytes)
  rw [h] at hext
  generalize hlong : decodeBody policy ((Cursor.start bytes).followedBy t) = r at hext
  cases hext with
  | ok hsame =>
      subst hsame
      exact hlong

/-- A file that ends before its class does is cut. -/
theorem body_of_front {front t : List UInt8} (ht : t ≠ [])
    (h : decodeBody policy (.start (front ++ t)) = .ok c k) (hrest : k.rest = []) :
    ∃ e k', decodeBody policy (.start front) = .error e k' ∧ e.IsCut := by
  have hext := extends_decodeBody policy t (.start front)
  have hlong : decodeBody policy ((Cursor.start front).followedBy t) = .ok c k := h
  rw [hlong] at hext
  cases hfront : decodeBody policy (.start front) with
  | ok c' k' =>
      -- Then the class ends within the front, and all of `t` is left behind it.
      rw [hfront] at hext
      cases hext
      exact absurd (List.append_eq_nil_iff.mp hrest).2 ht
  | error e k' =>
      rw [hfront] at hext
      cases hext with
      | cut hcut => exact ⟨e, k', rfl, hcut⟩

/--
**An accepted file is exactly delimited**, if the policy allows nothing after a class.
(a) Whatever leaves out bytes at the end is cut, and this is the only fault that is
found.  (b) Bytes after the end are found there and counted.  (c) If they are allowed,
they change nothing.
-/
theorem ofBytes_delimited (hpolicy : policy.allowTrailing = false)
    (h : ofBytes policy bytes = .ok c) :
    (∀ front, front <+: bytes → front ≠ bytes → ∀ trailing : Bool,
      ∃ e, ofBytes { policy with allowTrailing := trailing } front = .error e ∧ e.IsCut) ∧
    (∀ t, t ≠ [] →
      ofBytes policy (bytes ++ t) = .error (.located (.trailingBytes t.length) bytes.length)) ∧
    ∀ t, ofBytes { policy with allowTrailing := true } (bytes ++ t) = .ok c := by
  obtain ⟨k, hbody, hrest, hoffset⟩ := body_of_ofBytes hpolicy h
  refine ⟨?_, ?_, ?_⟩
  · intro front hprefix hne trailing
    obtain ⟨t, rfl⟩ := hprefix
    have ht : t ≠ [] := by
      rintro rfl
      exact hne (List.append_nil front).symm
    obtain ⟨e, k', hfront, hcut⟩ := body_of_front ht hbody hrest
    exact ⟨e, ofBytes_of_body_error hfront, hcut⟩
  · intro t ht
    rw [ofBytes_of_body_ok (body_append hbody t), if_neg]
    · show Except.error (Fault.located (.trailingBytes (k.rest ++ t).length) k.offset) = _
      rw [hrest, List.nil_append, hoffset]
    · show ¬ ((k.rest ++ t).length = 0 ∨ policy.allowTrailing = true)
      simp [hpolicy, ht]
  · intro t
    have hbody' : decodeBody { policy with allowTrailing := true } (.start (bytes ++ t)) =
        .ok c (k.followedBy t) := body_append hbody t
    rw [ofBytes_of_body_ok hbody', if_pos (.inr rfl)]

theorem ofBytes_delimited_everyAttribute :
    (∃ e, ofBytes .standard (everyAttribute.encode.take 100) = .error e ∧ e.IsCut) ∧
    ofBytes .standard (everyAttribute.encode ++ [7]) =
      .error (.located (.trailingBytes 1) everyAttribute.encode.length) ∧
    ofBytes { ReadPolicy.standard with allowTrailing := true } (everyAttribute.encode ++ [7]) =
      .ok (everyAttribute.view Annotation.merge) := by
  have hfront : everyAttribute.encode.take 100 ≠ everyAttribute.encode := by decide +kernel
  obtain ⟨hcut, hmore, hallowed⟩ := ofBytes_delimited rfl ofBytes_everyAttribute
  exact ⟨hcut _ (List.take_prefix 100 _) hfront false, hmore [7] (by decide), hallowed [7]⟩

/-! ### Faults that are no cuts -/

/-- A fault that is no cut stops the body wherever the file ends. -/
theorem body_error_append {e : Fault} (h : decodeBody policy (.start bytes) = .error e k)
    (hcut : ¬ e.IsCut) (t : List UInt8) :
    decodeBody policy (.start (bytes ++ t)) = .error e (k.followedBy t) := by
  have hext := extends_decodeBody policy t (.start bytes)
  rw [h] at hext
  generalize hlong : decodeBody policy ((Cursor.start bytes).followedBy t) = r at hext
  cases hext with
  | stopped => exact hlong
  | cut he => exact absurd he hcut

/-- A file is refused for its body, or for the bytes behind it. -/
theorem body_of_ofBytes_error {e : Fault} (h : ofBytes policy bytes = .error e) :
    e.cause.kind = .trailingData ∨ ∃ k, decodeBody policy (.start bytes) = .error e k := by
  cases hbody : decodeBody policy (.start bytes) with
  | ok c k =>
      left
      rw [ofBytes_of_body_ok hbody] at h
      by_cases hend : k.remaining = 0 ∨ policy.allowTrailing = true
      · rw [if_pos hend] at h
        cases h
      · rw [if_neg hend] at h
        cases h
        rfl
  | error e' k =>
      right
      rw [ofBytes_of_body_error hbody] at h
      cases h
      exact ⟨k, rfl⟩

/--
**Structural faults are final.**  If a file is refused for anything but its end, then it
is refused with the same fault, at the same offset, whatever is appended to it.
-/
theorem ofBytes_append_of_structural {e : Fault} (h : ofBytes policy bytes = .error e)
    (hkind : e.cause.kind ∉ [.endOfInput, .truncatedAttribute, .trailingData])
    (t : List UInt8) : ofBytes policy (bytes ++ t) = .error e := by
  have hcut : ¬ e.IsCut := by
    rintro (hend | htruncated)
    · exact hkind (by simp [hend])
    · exact hkind (by simp [htruncated])
  rcases body_of_ofBytes_error h with htrailing | ⟨k, hbody⟩
  · exact absurd (by simp [htrailing]) hkind
  · exact ofBytes_of_body_error (body_error_append hbody hcut t)

/-- An attribute declares one byte, and its payload takes two. -/
theorem ofBytes_append_of_structural_overread :
    let bytes : List UInt8 :=
      [0xCA, 0xFE, 0xBA, 0xBE, 0, 0, 0, 52, 0, 4, 1, 0, 1, 0x41, 7, 0, 1, 1, 0, 10, 0x53, 0x6F,
       0x75, 0x72, 0x63, 0x65, 0x46, 0x69, 0x6C, 0x65, 0, 0x21, 0, 2, 0, 0, 0, 0, 0, 0, 0, 0, 0, 1,
       0, 3, 0, 0, 0, 1, 0, 1]
    let e : Fault := .located (.attributeLength "SourceFile" 1 2) 50
    ofBytes .standard bytes = .error e ∧
      e.cause.kind ∉ [.endOfInput, .truncatedAttribute, .trailingData] ∧
      ofBytes .standard (bytes ++ [0xCA, 0xFE]) = .error e := by
  intro bytes e
  have hfault : ofBytes .standard bytes = .error e := by decide +kernel
  have hkind : e.cause.kind ∉ [.endOfInput, .truncatedAttribute, .trailingData] := by decide
  exact ⟨hfault, hkind, ofBytes_append_of_structural hfault hkind [0xCA, 0xFE]⟩

end ClassFormat.ClassFile
