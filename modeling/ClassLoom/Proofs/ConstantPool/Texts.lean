import ClassLoom.Proofs.ConstantPool.Spelling

/-!
# Texts of the constant pool

A text may be spelled longer in a class file than it is written, and never shorter. Since the
length of a spelling has sixteen bits, so has that of the encoding: what has been read can be
written again.

* `Constant.exists_written_of_read`: texts that were read;
* `ModifiedUtf8.encode_shortest`: what encodings are among all spellings.
-/

namespace ClassLoom

namespace Constant

/-- **A text that was read can be written**, in no more bytes than it was spelled in, and reads
back as the same text. -/
theorem exists_written_of_read {bs rest : Bytes} {text : String}
    (h : read bs = .ok (.utf8 text, rest)) :
    ∃ written, (utf8 text).bytes = .ok written ∧ written.length + rest.length ≤ bs.length
      ∧ ∀ more, read (written ++ more) = .ok (.utf8 text, more) := by
  obtain ⟨s, hs, hconstant⟩ := SpelledConstant.read_eq_ok_iff.1 h
  obtain ⟨taken, htaken, rfl⟩ := SpelledConstant.bytes_of_read hs
  obtain ⟨written, hwritten, hle⟩ := SpelledConstant.exists_written hconstant htaken
  refine ⟨written, hwritten, ?_, fun more => ?_⟩
  · rw [List.length_append]
    omega
  · exact SpelledConstant.read_eq_ok_iff.2 ⟨SpelledConstant.spell (.utf8 text),
      SpelledConstant.readsBack_spell (by simp) hwritten more, SpelledConstant.constant?_spell _⟩

end Constant

namespace ModifiedUtf8

/-- **The encoding of a text is its only shortest spelling.** Every text is read back from its
encoding, which has no zero byte and none from 0xF0 on. Whatever bytes a text is read from, its
encoding is no longer, and as long only if it is just these bytes. Bytes below 0x80 other than
zero are read as UTF-8. So a text that was read from a constant pool can be written again, and is
read back as it was. -/
theorem encode_shortest :
    (∀ text, decode? (encode text) = some text ∧ ∀ b ∈ encode text, b ≠ 0 ∧ b < 0xF0)
      ∧ (∀ bs text, decode? bs = some text → (encode text).length ≤ bs.length
        ∧ ((encode text).length = bs.length ↔ encode text = bs))
      ∧ (∀ bs : Bytes, (∀ b ∈ bs, b ≠ 0 ∧ b < 0x80) →
        decode? bs = String.fromUTF8? bs.toByteArray)
      ∧ ∀ bs rest text, Constant.read bs = .ok (.utf8 text, rest) →
        ∃ written, (Constant.utf8 text).bytes = .ok written
          ∧ written.length + rest.length ≤ bs.length
          ∧ ∀ more, Constant.read (written ++ more) = .ok (.utf8 text, more) := by
  refine ⟨fun text => ⟨decode?_encode text, ne_zero_and_lt_of_mem_encode⟩,
    fun bs text hdecode => ?_, fun bs => decode?_eq_fromUTF8?,
    fun bs rest text => Constant.exists_written_of_read⟩
  refine ⟨length_encode_le hdecode, fun hlength => ?_, congrArg List.length⟩
  exact encode_eq_of_length_le hdecode (Nat.le_of_eq hlength.symm)

/-- A letter that is spelled in two bytes, and a supplementary character in its two surrogates. The
text is read, and would be written in fewer bytes. -/
theorem encode_shortest_overlong :
    let spelling : Bytes := [0xC1, 0x81, 0xED, 0xA0, 0xBD, 0xED, 0xB8, 0x80]
    decode? spelling = some "A😀" ∧ (encode "A😀").length ≠ spelling.length
      ∧ decode? [0x41, 0x42] = String.fromUTF8? [0x41, 0x42].toByteArray
      ∧ Constant.read (1 :: 0 :: 8 :: spelling) = .ok (.utf8 "A😀", [])
      ∧ ∃ written, (Constant.utf8 "A😀").bytes = .ok written
        ∧ Constant.read (written ++ [7]) = .ok (.utf8 "A😀", [7]) := by
  intro spelling
  obtain ⟨_, hshortest, hascii, hwritten⟩ := encode_shortest
  have hdecode : decode? spelling = some "A😀" := by
    decide +kernel
  have hread : Constant.read (1 :: 0 :: 8 :: spelling) = .ok (.utf8 "A😀", []) := by
    decide +kernel
  have hlow : ∀ b ∈ ([0x41, 0x42] : Bytes), b ≠ 0 ∧ b < 0x80 := by
    decide +kernel
  -- The same text in its shortest spelling would have to be the same bytes.
  have hlonger : (encode "A😀").length ≠ spelling.length := fun hlength =>
    absurd ((hshortest _ _ hdecode).2.1 hlength) (by decide +kernel)
  obtain ⟨written, hbytes, _, hreads⟩ := hwritten _ _ _ hread
  exact ⟨hdecode, hlonger, hascii _ hlow, hread, written, hbytes, hreads [7]⟩

end ModifiedUtf8
end ClassLoom
