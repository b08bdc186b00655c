/-
Writing a pool and reading it back.

The constants come back in their order, each under the number of its first slot,
and the reader stops where the pool ends.  Nothing restricts the order of the
constants: a reference may lead forwards as well as backwards.
-/
import ClassFormat.Proofs.ConstantPool.Layout

namespace ClassFormat.ConstantPool

/-- **A well-formed pool is read back from its bytes, whatever follows them.** -/
theorem decode_encode (xs : PoolLayout) (h : PoolLayout.WellFormed xs) (c : Cursor)
    (t : List UInt8) (ht : c.rest = PoolLayout.encode xs ++ t) :
    ∃ pool c', decode c = .ok pool c' ∧
      pool.entries = Constant.numbered 1 (xs.map RawConstant.view) ∧
      pool.count = PoolLayout.count xs ∧
      c'.rest = t ∧ c'.offset = c.offset + (PoolLayout.encode xs).length := by
  obtain ⟨c', hdecode, hover⟩ := reads_decode.accepts ⟨xs, h, rfl, rfl⟩ ht
  refine ⟨PoolLayout.view xs, c', hdecode, ?_, PoolLayout.count_view xs, hover.rest_eq ht,
    hover.offset⟩
  exact entries_ofEntries (xs.map RawConstant.view)

/--
Constants that refer forwards and backwards, a long and a double, a text with a
NUL and a lone surrogate, and a double that stands for no number.
-/
theorem decode_encode_mixed :
    let xs : PoolLayout :=
      [.classRef 2, .utf8 [0xC0, 0x80, 0x41, 0xED, 0xA0, 0x80], .long (-1), .methodRef 1 6,
       .nameAndType 2 7, .utf8 [0x28, 0x29, 0x56], .methodHandle 9 5,
       .double ⟨0x7FF8000000000001⟩, .dynamic 77 6, .string 7]
    ∃ pool c', decode (.start (PoolLayout.encode xs ++ [0xCA])) = .ok pool c' ∧
      pool.entries = Constant.numbered 1 (xs.map RawConstant.view) ∧
      pool.count = 13 ∧ c'.rest = [0xCA] ∧ c'.offset = (PoolLayout.encode xs).length := by
  intro xs
  obtain ⟨pool, c', hdecode, hentries, hcount, hrest, hoffset⟩ :=
    decode_encode xs (by decide) (.start (PoolLayout.encode xs ++ [0xCA])) [0xCA] rfl
  exact ⟨pool, c', hdecode, hentries, hcount, hrest, by rw [hoffset]; exact Nat.zero_add _⟩

end ClassFormat.ConstantPool
