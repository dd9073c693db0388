import ClassLoom.ConstantPool.Format
import ClassLoom.Proofs.ModifiedUtf8
import ClassLoom.Proofs.ReadsBack

/-!
# How constants are spelled

A constant is written in one way, but a text may be read from several spellings. A
`SpelledConstant` is a constant as it stands in a file, before texts are decoded: what is read
and what is written are the same thing for it (`SpelledConstant.bytes_of_read`,
`SpelledConstant.readsBack_spell`), and decoding what is read gives the constants of the pool
(`read_eq_ok_iff`).
-/

namespace ClassLoom

/-! ## Constants other than texts

All constants but texts have fields of fixed widths, and are read and written field by field. -/

namespace Constant

/-- Two words, for the constants that name two others. The same bytes, then, are the two words in
their written form. -/
theorem readPair_eq_ok_iff {make : UInt16 → UInt16 → Constant} {bs rest : Bytes} {c : Constant} :
    readPair make bs = .ok (c, rest)
      ↔ ∃ a b, c = make a b ∧ bs = Bytes.word16 a ++ Bytes.word16 b ++ rest := by
  unfold readPair
  constructor
  · intro h
    obtain ⟨a, mid, ha, h⟩ := Reader.bind_eq_ok.1 h
    obtain ⟨b, mid', hb, h⟩ := Reader.bind_eq_ok.1 h
    cases h
    rw [Reader.word16_eq_ok] at ha hb
    exact ⟨a, b, rfl, by rw [ha, hb, List.append_assoc]⟩
  · rintro ⟨a, b, rfl, rfl⟩
    rw [List.append_assoc]
    exact Reader.bind_eq_ok.2 ⟨a, _, Reader.word16_append a _,
      Reader.bind_eq_ok.2 ⟨b, _, Reader.word16_append b _, rfl⟩⟩

/-- **Fields are written as they were read**, unless they are the spelling of a text. Their widths
are known from the tag. -/
theorem bytes_of_readFields {tag : UInt8} {bs rest : Bytes} {c : Constant} (htag : tag ≠ 1)
    (h : readFields tag bs = .ok (c, rest)) :
    ∃ fields, c.bytes = .ok (tag :: fields) ∧ bs = fields ++ rest := by
  have hname (n : Nat) (hn : n < 256) (htag : tag.toNat = n) : tag = UInt8.ofNat n := by
    apply UInt8.toNat.inj
    rw [htag, UInt8.toNat_ofNat', Nat.mod_eq_of_lt hn]
  have hword {make : UInt16 → Constant}
      (h : (do return make (← Reader.word16) : Reader Constant) bs = .ok (c, rest)) :
      ∃ w, c = make w ∧ bs = Bytes.word16 w ++ rest := by
    obtain ⟨w, mid, hw, h⟩ := Reader.bind_eq_ok.1 h
    cases h
    exact ⟨w, rfl, Reader.word16_eq_ok.1 hw⟩
  unfold readFields at h
  generalize heq : tag.toNat = n at h
  split at h
  case h_1 => exact absurd (hname 1 (by omega) heq) htag
  case h_2 =>
    obtain ⟨w, mid, hw, h⟩ := Reader.bind_eq_ok.1 h
    cases h
    obtain rfl := hname 3 (by omega) heq
    exact ⟨Bytes.word32 w, rfl, Reader.word32_eq_ok.1 hw⟩
  case h_3 =>
    obtain ⟨w, mid, hw, h⟩ := Reader.bind_eq_ok.1 h
    cases h
    obtain rfl := hname 4 (by omega) heq
    exact ⟨Bytes.word32 w, rfl, Reader.word32_eq_ok.1 hw⟩
  case h_4 =>
    obtain ⟨w, mid, hw, h⟩ := Reader.bind_eq_ok.1 h
    cases h
    obtain rfl := hname 5 (by omega) heq
    exact ⟨Bytes.word64 w, rfl, Reader.word64_eq_ok.1 hw⟩
  case h_5 =>
    obtain ⟨w, mid, hw, h⟩ := Reader.bind_eq_ok.1 h
    cases h
    obtain rfl := hname 6 (by omega) heq
    exact ⟨Bytes.word64 w, rfl, Reader.word64_eq_ok.1 hw⟩
  case h_12 =>
    obtain ⟨k, mid, hk, h⟩ := Reader.bind_eq_ok.1 h
    obtain ⟨w, mid', hw, h⟩ := Reader.bind_eq_ok.1 h
    cases h
    obtain rfl := hname 15 (by omega) heq
    rw [Reader.byte_eq_ok] at hk
    rw [Reader.word16_eq_ok] at hw
    exact ⟨k :: Bytes.word16 w, rfl, by rw [hk, hw, List.cons_append]⟩
  case h_18 => cases h
  -- What is left are one word or two behind the tag.
  all_goals
    obtain rfl := hname _ (by omega) heq
    first
    | obtain ⟨w, rfl, rfl⟩ := hword h
      exact ⟨_, rfl, rfl⟩
    | obtain ⟨a, b, rfl, rfl⟩ := readPair_eq_ok_iff.1 h
      exact ⟨_, rfl, rfl⟩

/-- The written form of a constant that is no text is a tag and fields that are read back. An
unusable slot has none. -/
theorem readsBack_readFields {c : Constant} {bs : Bytes} (hc : c ≠ .unusable)
    (htext : ∀ t, c ≠ .utf8 t) (h : c.bytes = .ok bs) :
    ∃ tag fields, bs = tag :: fields ∧ tag ≠ 1 ∧ ReadsBack (readFields tag) fields c := by
  have hlong (w : UInt64) : ReadsBack Reader.word64 (Bytes.word64 w) w := Reader.word64_append w
  have hpair {make : UInt16 → UInt16 → Constant} (a b : UInt16) :
      ReadsBack (readPair make) (Bytes.word16 a ++ Bytes.word16 b) (make a b) :=
    (ReadsBack.word16 a).bind (ReadsBack.word16 b).map
  cases c with
  | unusable => exact absurd rfl hc
  | utf8 t => exact absurd rfl (htext t)
  -- Signed numbers go through the words of their bits.
  | integer value =>
    cases h
    have hread := (ReadsBack.word32 value.toUInt32).map (f := fun w => integer w.toInt32)
    rw [Int32.toInt32_toUInt32] at hread
    exact ⟨3, _, rfl, by decide, hread⟩
  | float bits =>
    cases h
    exact ⟨4, _, rfl, by decide, (ReadsBack.word32 bits).map⟩
  | long value =>
    cases h
    have hread := (hlong value.toUInt64).map (f := fun w => long w.toInt64)
    rw [Int64.toInt64_toUInt64] at hread
    exact ⟨5, _, rfl, by decide, hread⟩
  | double bits =>
    cases h
    exact ⟨6, _, rfl, by decide, (hlong bits).map⟩
  | methodHandle kind reference =>
    cases h
    have hkind : ReadsBack Reader.byte [kind] kind := fun _ => rfl
    exact ⟨15, _, rfl, by decide, hkind.bind (ReadsBack.word16 reference).map⟩
  -- One index, and then two.
  | classInfo w | string w | methodType w | moduleInfo w | packageInfo w =>
    cases h
    exact ⟨_, _, rfl, by decide, (ReadsBack.word16 w).map⟩
  | field a b | method a b | interfaceMethod a b | nameAndType a b | dynamic a b
  | invokeDynamic a b =>
    cases h
    exact ⟨_, _, rfl, by decide, hpair a b⟩

end Constant

/-! ## Spelled constants

A text can be spelled in bytes in more than one way. What a file says is therefore read in two
steps: constants as they are spelled first, with a text as its bytes, and then what is spelled. -/

/-- A constant as it stands in a file: a text keeps the bytes that it is spelled with. -/
inductive SpelledConstant where
  | text (spelling : Bytes)
  | plain (c : Constant)
  deriving DecidableEq, Repr

namespace SpelledConstant

/-- The constant that is spelled, if the bytes of a text spell one. -/
def constant? : SpelledConstant → Option Constant
  | text spelling => (ModifiedUtf8.decode? spelling).map .utf8
  | plain c => some c

/-- Whether a text is spelled the way in which it is written. -/
def IsCanonical : SpelledConstant → Prop
  | text spelling => ∃ t, ModifiedUtf8.decode? spelling = some t ∧ ModifiedUtf8.encode t = spelling
  | plain _ => True

/-- The way in which a constant is written. -/
def spell : Constant → SpelledConstant
  | .utf8 t => text (ModifiedUtf8.encode t)
  | c => plain c

/-- Whether the constant takes two slots. -/
def isWide : SpelledConstant → Bool
  | text _ => false
  | plain c => c.isWide

/-- Reads a constant without decoding texts. -/
def read : Reader SpelledConstant := do
  let tag ← Reader.byte
  if tag = 1 then
    let length ← Reader.word16
    return text (← Reader.bytes length.toNat)
  return plain (← Constant.readFields tag)

/-- The written form of a spelled constant. -/
def bytes : SpelledConstant → Except ClassError Bytes
  | text spelling =>
    if spelling.length < 65536 then
      .ok (1 :: (Bytes.word16 (UInt16.ofNat spelling.length) ++ spelling))
    else .error .badModifiedUtf8
  | plain c => c.bytes

/-- What is spelled is the constant. -/
theorem constant?_spell (c : Constant) : (spell c).constant? = some c := by
  unfold spell
  split
  · next t => rw [constant?, ModifiedUtf8.decode?_encode, Option.map_some]
  · rfl

/-- It is spelled as it is written. -/
theorem isCanonical_spell (c : Constant) : (spell c).IsCanonical := by
  unfold spell
  split
  · next t => exact ⟨t, ModifiedUtf8.decode?_encode t, rfl⟩
  · trivial

/-- What is spelled canonically is written as it is spelled. -/
theorem bytes_of_isCanonical {s : SpelledConstant} {c : Constant} (hs : s.IsCanonical)
    (hc : s.constant? = some c) : c.bytes = s.bytes := by
  cases s with
  | text spelling =>
    obtain ⟨t, hdecode, rfl⟩ := hs
    rw [constant?, hdecode] at hc
    cases hc
    rfl
  | plain c' =>
    cases hc
    rfl

/-- **What can be written as it is spelled can be written**, and in no more bytes. A text is written
in its shortest spelling, which fits where another one did. -/
theorem exists_written {s : SpelledConstant} {c : Constant} {taken : Bytes}
    (hc : s.constant? = some c) (htaken : s.bytes = .ok taken) :
    ∃ written, c.bytes = .ok written ∧ written.length ≤ taken.length := by
  cases s with
  | plain c' =>
    cases hc
    exact ⟨taken, htaken, Nat.le_refl _⟩
  | text spelling =>
    obtain ⟨t, hdecode, rfl⟩ := Option.map_eq_some_iff.1 hc
    have hle := ModifiedUtf8.length_encode_le hdecode
    simp only [bytes] at htaken
    -- The bytes of a text are counted in a word.
    split at htaken
    · cases htaken
      refine ⟨_, if_pos (by omega), ?_⟩
      simp only [List.length_cons, List.length_append, Bytes.word16]
      omega
    · cases htaken

/-- How many slots a constant takes does not depend on its spelling. -/
theorem isWide_eq {s : SpelledConstant} {c : Constant} (hc : s.constant? = some c) :
    c.isWide = s.isWide := by
  cases s with
  | text spelling =>
    obtain ⟨t, _, rfl⟩ := Option.map_eq_some_iff.1 hc
    rfl
  | plain c' =>
    cases hc
    rfl

/-- **A constant is read where it is spelled.** Reading it directly is reading its spelling, and
then what that spells. -/
theorem read_eq_ok_iff {bs rest : Bytes} {c : Constant} :
    Constant.read bs = .ok (c, rest) ↔ ∃ s, read bs = .ok (s, rest) ∧ s.constant? = some c := by
  unfold Constant.read read
  simp only [Reader.bind_eq_ok]
  constructor
  · rintro ⟨tag, mid, htag, h⟩
    by_cases hone : tag = 1
    · -- A text: its spelling is kept, and decoded afterwards.
      subst hone
      obtain ⟨t, last, htext, h⟩ := Reader.bind_eq_ok.1 h
      cases h
      obtain ⟨length, mid', hlength, htext⟩ := Reader.bind_eq_ok.1 htext
      obtain ⟨spelling, mid'', hspelling, htext⟩ := Reader.bind_eq_ok.1 htext
      cases hdecode : ModifiedUtf8.decode? spelling with
      | none =>
        rw [hdecode] at htext
        cases htext
      | some t' =>
        rw [hdecode] at htext
        cases htext
        refine ⟨text spelling, ⟨1, mid, htag, ?_⟩, by rw [constant?, hdecode, Option.map_some]⟩
        rw [if_pos rfl, Reader.bind_eq_ok]
        exact ⟨length, mid', hlength, Reader.bind_eq_ok.2 ⟨spelling, _, hspelling, rfl⟩⟩
    · refine ⟨plain c, ⟨tag, mid, htag, ?_⟩, rfl⟩
      rw [if_neg hone]
      exact Reader.bind_eq_ok.2 ⟨c, rest, h, rfl⟩
  · rintro ⟨s, ⟨tag, mid, htag, h⟩, hc⟩
    refine ⟨tag, mid, htag, ?_⟩
    split at h
    · next hone =>
      subst hone
      obtain ⟨length, mid', hlength, h⟩ := Reader.bind_eq_ok.1 h
      obtain ⟨spelling, mid'', hspelling, h⟩ := Reader.bind_eq_ok.1 h
      cases h
      obtain ⟨t, hdecode, rfl⟩ := Option.map_eq_some_iff.1 hc
      refine Reader.bind_eq_ok.2 ⟨t, rest, Reader.bind_eq_ok.2 ⟨length, mid', hlength, ?_⟩, rfl⟩
      refine Reader.bind_eq_ok.2 ⟨spelling, rest, hspelling, ?_⟩
      rw [hdecode]
      rfl
    · obtain ⟨c', mid', hfields, h⟩ := Reader.bind_eq_ok.1 h
      cases h
      cases hc
      exact hfields

/-- **What is read is written as it was**, texts included. The bytes of a text are kept as they
are. -/
theorem bytes_of_read {bs rest : Bytes} {s : SpelledConstant} (h : read bs = .ok (s, rest)) :
    ∃ taken, s.bytes = .ok taken ∧ bs = taken ++ rest := by
  obtain ⟨tag, mid, htag, h⟩ := Reader.bind_eq_ok.1 h
  rw [Reader.byte_eq_ok] at htag
  split at h
  · next hone =>
    -- A text: its bytes are what was read, whatever characters they spell.
    obtain ⟨length, mid', hlength, h⟩ := Reader.bind_eq_ok.1 h
    obtain ⟨spelling, mid'', hspelling, h⟩ := Reader.bind_eq_ok.1 h
    cases h
    rw [Reader.word16_eq_ok] at hlength
    obtain ⟨rfl, hcount⟩ := Reader.bytes_eq_ok.1 hspelling
    have hlt := length.toNat_lt
    have hword : UInt16.ofNat spelling.length = length := by rw [hcount, UInt16.ofNat_toNat]
    refine ⟨1 :: (Bytes.word16 length ++ spelling), ?_, ?_⟩
    · rw [bytes, if_pos (by omega), hword]
    · rw [htag, hone, hlength, List.cons_append, List.append_assoc]
  · next hone =>
    obtain ⟨c, mid', hfields, h⟩ := Reader.bind_eq_ok.1 h
    cases h
    obtain ⟨fields, hbytes, rfl⟩ := Constant.bytes_of_readFields hone hfields
    exact ⟨tag :: fields, hbytes, by rw [htag, List.cons_append]⟩

/-- Only texts have more than one spelling. -/
theorem spell_eq_plain {c : Constant} (hc : ∀ t, c ≠ .utf8 t) : spell c = plain c := by
  unfold spell
  split
  · next t => exact absurd rfl (hc t)
  · rfl

/-- **The written form of a constant is read back** as its spelling. That is what it will be read as
the next time. -/
theorem readsBack_spell {c : Constant} {bs : Bytes} (hc : c ≠ .unusable) (h : c.bytes = .ok bs) :
    ReadsBack read bs (spell c) := by
  -- Texts are the only constants whose spelling is not fixed by what they are.
  by_cases htext : ∃ t, c = .utf8 t
  · obtain ⟨t, rfl⟩ := htext
    unfold Constant.bytes at h
    simp only at h
    split at h
    · next hlt =>
      cases h
      have hlength : (UInt16.ofNat (ModifiedUtf8.encode t).length).toNat
          = (ModifiedUtf8.encode t).length := UInt16.toNat_ofNat_of_lt' hlt
      have htag : ReadsBack Reader.byte [1] 1 := fun _ => rfl
      refine htag.bind ?_
      rw [if_pos rfl]
      refine (ReadsBack.word16 _).bind ?_
      rw [hlength]
      exact (ReadsBack.bytes (ModifiedUtf8.encode t)).map
    · cases h
  · push Not at htext
    obtain ⟨tag, fields, rfl, hone, hfields⟩ := Constant.readsBack_readFields hc htext h
    rw [spell_eq_plain htext]
    have htag : ReadsBack Reader.byte [tag] tag := fun _ => rfl
    refine htag.bind ?_
    rw [if_neg hone]
    exact hfields.map

end SpelledConstant
end ClassLoom
