import ClassLoom.ModifiedUtf8
import ClassLoom.Proofs.Computation
import Mathlib.Tactic.SplitIfs

/-!
# Texts read back from modified UTF-8

A text is read where its UTF-16 code units are spelled one after the other, each in one of the
ways that `Spells` lists (`decode?_eq_some_iff`). What is written for a unit is one of them, and
of those that are read it is the only shortest one, since spellings differ in their length only
(`Spells.unique`). So every text is read back from its encoding, and bytes that are read as a text
without being its encoding are longer.

* `decode?_encode`: the encoding of a text is read as the text;
* `length_encode_le`, `encode_eq_of_length_le`: the encoding is the only shortest spelling.
-/

namespace ClassLoom.ModifiedUtf8

/-! ## Spellings of code units

The format has texts as UTF-16 code units of one to three bytes each. Reading is lenient: it takes
longer forms than necessary. `Spells` has all the forms that are read, and of one length there is
only one. -/

/-- A continuation byte gives its payload. -/
theorem tail?_ofNat {x : Nat} (h : x < 64) : tail? (UInt8.ofNat (0x80 + x)) = some x := by
  have hbyte : (UInt8.ofNat (0x80 + x)).toNat = 0x80 + x := by
    rw [UInt8.toNat_ofNat']
    omega
  have hlead : (0x80 + x) / 64 = 2 := by omega
  have hpayload : (0x80 + x) % 64 = x := by omega
  unfold tail?
  rw [hbyte, if_pos hlead, hpayload]

/-- A continuation byte is its payload with the mark in front. -/
theorem tail?_eq_some {b : UInt8} {x : Nat} (h : tail? b = some x) :
    b.toNat = 0x80 + x ∧ x < 64 := by
  unfold tail? at h
  split at h
  · cases h
    omega
  · cases h

/-- So its payload tells the byte. -/
theorem tail?_inj {b c : UInt8} {x : Nat} (hb : tail? b = some x) (hc : tail? c = some x) :
    b = c := by
  have hb := tail?_eq_some hb
  have hc := tail?_eq_some hc
  exact UInt8.toNat.inj (by omega)

/-- The ways in which a code unit may be spelled: as one byte other than zero, or as a lead byte
with one or two continuation bytes behind it. -/
inductive Spells : Nat → Bytes → Prop where
  | one {u : Nat} {a : UInt8} (hunit : u = a.toNat) (hne : a ≠ 0) (hlow : a < 0x80) : Spells u [a]
  | two {u x : Nat} {a b : UInt8} (hunit : u = a.toNat % 32 * 64 + x) (hlead : a.toNat / 32 = 6)
      (hb : tail? b = some x) : Spells u [a, b]
  | three {u x y : Nat} {a b c : UInt8} (hunit : u = a.toNat % 16 * 4096 + x * 64 + y)
      (hlead : a.toNat / 16 = 14) (hb : tail? b = some x) (hc : tail? c = some y) :
      Spells u [a, b, c]

/-- What is written for a code unit spells it. There are three cases by the size of the unit, and
the zero unit is written in two bytes. -/
theorem spells_encodeUnit {u : Nat} (hu : u < 0x10000) : Spells u (encodeUnit u) := by
  have hbyte (n : Nat) (hn : n < 256) : (UInt8.ofNat n).toNat = n := by
    rw [UInt8.toNat_ofNat']
    omega
  -- One case for each length. All bytes but the first are six bits under a mark.
  unfold encodeUnit
  split
  · next hone =>
    refine .one (hbyte u (by omega)).symm (fun hzero => ?_) ?_
    · have hnat := congrArg UInt8.toNat hzero
      rw [hbyte u (by omega)] at hnat
      exact absurd hnat (Nat.ne_of_gt hone.1)
    · rw [UInt8.lt_iff_toNat_lt, hbyte u (by omega)]
      exact hone.2
  split
  · next htwo =>
    have hlead := hbyte (0xC0 + u / 64) (by omega)
    exact .two (by omega) (by omega) (tail?_ofNat (show u % 64 < 64 by omega))
  · have hlead := hbyte (0xE0 + u / 4096) (by omega)
    exact .three (by omega) (by omega) (tail?_ofNat (show u / 64 % 64 < 64 by omega))
      (tail?_ofNat (show u % 64 < 64 by omega))

namespace Spells

variable {u : Nat} {bs cs : Bytes}

/-- A unit that is spelled has 16 bits. The three forms hold 7, 11 and 16 bits. So the code units of
a text that was read are those of UTF-16. -/
theorem lt (h : Spells u bs) : u < 0x10000 := by
  cases h with
  | @one a hunit =>
    have hbyte := a.toNat_lt
    omega
  | two hunit _ hb =>
    have hb := tail?_eq_some hb
    omega
  | three hunit _ hb hc =>
    have hb := tail?_eq_some hb
    have hc := tail?_eq_some hc
    omega

theorem ne_nil (h : Spells u bs) : bs ≠ [] := by
  cases h <;> exact List.cons_ne_nil _ _

/-- No byte of a spelling is zero, and none starts a longer sequence of UTF-8. So a text has no byte
that ends it, and none that a character beyond 16 bits begins with. -/
theorem ne_zero_and_lt (h : Spells u bs) : ∀ b ∈ bs, b ≠ 0 ∧ b < 0xF0 := by
  have hhigh {b : UInt8} (hlow : 0x80 ≤ b.toNat) (hhigh : b.toNat < 0xF0) : b ≠ 0 ∧ b < 0xF0 := by
    refine ⟨?_, UInt8.lt_iff_toNat_lt.2 hhigh⟩
    rintro rfl
    exact absurd hlow (by decide)
  have htail {b : UInt8} {x : Nat} (hb : tail? b = some x) : b ≠ 0 ∧ b < 0xF0 := by
    have hb := tail?_eq_some hb
    exact hhigh (by omega) (by omega)
  -- Only a unit of one byte may have a byte below 0x80, and that one is not zero.
  cases h with
  | one _ hne hlow =>
    rw [List.forall_mem_singleton]
    exact ⟨hne, UInt8.lt_of_lt_of_le hlow (by decide)⟩
  | two _ hlead hb =>
    rw [List.forall_mem_cons, List.forall_mem_singleton]
    exact ⟨hhigh (by omega) (by omega), htail hb⟩
  | three _ hlead hb hc =>
    rw [List.forall_mem_cons, List.forall_mem_cons, List.forall_mem_singleton]
    exact ⟨hhigh (by omega) (by omega), htail hb, htail hc⟩

/-- **A code unit has one spelling of each length.** Lead byte and payloads are the digits of the
unit. -/
theorem unique (h : Spells u bs) (h' : Spells u cs) (hlength : bs.length = cs.length) :
    bs = cs := by
  cases h with
  | one hunit =>
    cases h' with
    | one hunit' => rw [UInt8.toNat.inj (hunit.symm.trans hunit')]
    | two => cases hlength
    | three => cases hlength
  -- The payload has six bits, so that it and the lead byte are told by the unit.
  | @two x a b hunit hlead hb =>
    cases h' with
    | one => cases hlength
    | @two x' a' b' hunit' hlead' hb' =>
      have hlow := (tail?_eq_some hb).2
      have hlow' := (tail?_eq_some hb').2
      obtain rfl : a = a' := UInt8.toNat.inj (by omega)
      obtain rfl : x = x' := by omega
      rw [tail?_inj hb hb']
    | three => cases hlength
  -- Likewise with two payloads of six bits.
  | @three x y a b c hunit hlead hb hc =>
    cases h' with
    | one => cases hlength
    | two => cases hlength
    | @three x' y' a' b' c' hunit' hlead' hb' hc' =>
      have hlow := (tail?_eq_some hb).2
      have hlow' := (tail?_eq_some hb').2
      have hlast := (tail?_eq_some hc).2
      have hlast' := (tail?_eq_some hc').2
      obtain rfl : a = a' := UInt8.toNat.inj (by omega)
      obtain rfl : x = x' := by omega
      obtain rfl : y = y' := by omega
      rw [tail?_inj hb hb', tail?_inj hc hc']

/-- What is written for a code unit is its shortest spelling. The other spellings are longer than
they have to be. -/
theorem length_encodeUnit_le (h : Spells u bs) : (encodeUnit u).length ≤ bs.length := by
  unfold encodeUnit
  cases h with
  | @one a hunit hne hlow =>
    have hlow : a.toNat < 0x80 := hlow
    have hpos : a.toNat ≠ 0 := fun hzero => hne (UInt8.toNat.inj hzero)
    rw [if_pos (by omega)]
    exact Nat.le_refl 1
  | two hunit _ hb =>
    have hlow := (tail?_eq_some hb).2
    rw [if_pos (show u < 0x800 by omega)]
    split <;> simp
  | three => split_ifs <;> simp

/-- A spelled code unit is read, whatever stands behind it. Its first byte tells how many there are
to read. -/
theorem unitsOnto_append (h : Spells u bs) (done : List Nat) (rest : Bytes) :
    unitsOnto done (bs ++ rest) = unitsOnto (u :: done) rest := by
  have hhigh {a : UInt8} (hlow : 0x80 ≤ a.toNat) : a ≠ 0 ∧ ¬ a < 0x80 := by
    refine ⟨?_, fun hlt => absurd (UInt8.lt_iff_toNat_lt.1 hlt) (Nat.not_lt.2 hlow)⟩
    rintro rfl
    exact absurd hlow (by decide)
  -- The first byte tells the length, and each case rules the tests in front of its own out.
  cases h with
  | one hunit hne hlow =>
    rw [List.cons_append, List.nil_append, unitsOnto.eq_def]
    simp only [hne, hlow, ← hunit, if_false, if_true]
  | @two _ a b hunit hlead hb =>
    obtain ⟨hne, hlong⟩ := hhigh (show 0x80 ≤ a.toNat by omega)
    rw [List.cons_append, List.cons_append, List.nil_append, unitsOnto.eq_def]
    simp only [hne, hlong, hlead, hb, ← hunit, if_false, if_true]
  | @three _ _ a b c hunit hlead hb hc =>
    obtain ⟨hne, hlong⟩ := hhigh (show 0x80 ≤ a.toNat by omega)
    have hnotTwo : a.toNat / 32 ≠ 6 := by omega
    rw [List.cons_append, List.cons_append, List.cons_append, List.nil_append, unitsOnto.eq_def]
    simp only [hne, hlong, hnotTwo, hlead, hb, hc, ← hunit, if_false, if_true]

end Spells

/-- What is read first is a spelling of a code unit. The reader refuses all other bytes. A unit that
breaks off at the end of the bytes is no unit. -/
theorem exists_spells_of_unitsOnto {done units : List Nat} {a : UInt8} {rest : Bytes}
    (h : unitsOnto done (a :: rest) = some units) :
    ∃ u spelling back, a :: rest = spelling ++ back ∧ Spells u spelling
      ∧ unitsOnto (u :: done) back = some units := by
  unfold unitsOnto at h
  -- By the ranges of the first byte, and then by the bytes that it asks for.
  split at h
  · cases h
  next hne =>
  split at h
  · next hlow => exact ⟨_, [a], rest, rfl, .one rfl hne hlow, h⟩
  split at h
  · next hlead =>
    split at h
    · next b back =>
      split at h
      · next x hb => exact ⟨_, [a, b], back, rfl, .two rfl hlead hb, h⟩
      · cases h
    · cases h
  split at h
  · next hlead =>
    split at h
    · next b c back =>
      split at h
      · next x y hb hc => exact ⟨_, [a, b, c], back, rfl, .three rfl hlead hb hc, h⟩
      · cases h
    · cases h
  · cases h

/-- **Code units are read exactly where they are spelled**, one after the other. Longer spellings
than necessary are among them. -/
theorem unitsOnto_eq_some_iff {done units : List Nat} {bs : Bytes} :
    unitsOnto done bs = some units
      ↔ ∃ more spellings, units = done.reverse ++ more ∧ bs = spellings.flatten
        ∧ List.Forall₂ Spells more spellings := by
  constructor
  · -- On the number of bytes, since a unit may take up to three of them.
    intro h
    induction hsize : bs.length using Nat.strongRecOn generalizing done bs with
    | ind size ih =>
      cases bs with
      | nil =>
        cases h
        exact ⟨[], [], (List.append_nil _).symm, rfl, .nil⟩
      | cons a rest =>
        obtain ⟨u, spelling, back, hbytes, hspells, hback⟩ := exists_spells_of_unitsOnto h
        have hpos := List.length_pos_iff.2 hspells.ne_nil
        have hlength := congrArg List.length hbytes
        rw [List.length_append] at hlength
        obtain ⟨more, spellings, rfl, rfl, hmore⟩ := ih back.length (by omega) hback rfl
        refine ⟨u :: more, spelling :: spellings, ?_, hbytes, .cons hspells hmore⟩
        rw [List.reverse_cons, List.append_assoc, List.singleton_append]
  · rintro ⟨more, spellings, rfl, rfl, hmore⟩
    induction hmore generalizing done with
    | nil => rw [List.append_nil, List.flatten_nil, unitsOnto]
    | cons hhead _ ih =>
      rw [List.flatten_cons, hhead.unitsOnto_append, ih, List.reverse_cons, List.append_assoc,
        List.singleton_append]

/-! ## Rows of spellings

Since every unit is written in its shortest form, a whole text is, and any other spelling of it is
longer. -/

/-- What is written for code units is no longer than any spelling of them. -/
theorem length_flatten_encodeUnit_le {units : List Nat} {spellings : List Bytes}
    (h : List.Forall₂ Spells units spellings) :
    (units.flatMap encodeUnit).length ≤ spellings.flatten.length := by
  induction h with
  | nil => exact Nat.le_refl 0
  | cons hhead _ ih =>
    have hle := hhead.length_encodeUnit_le
    rw [List.flatMap_cons, List.flatten_cons, List.length_append, List.length_append]
    omega

/-- A spelling of code units that is as short as what is written for them is just that. This is how
a text that is as short as possible is known to be canonical. -/
theorem flatten_eq_of_length_le {units : List Nat} {spellings : List Bytes}
    (h : List.Forall₂ Spells units spellings)
    (hlength : spellings.flatten.length ≤ (units.flatMap encodeUnit).length) :
    spellings.flatten = units.flatMap encodeUnit := by
  induction h with
  | nil => rfl
  | cons hhead htail ih =>
    have hle := hhead.length_encodeUnit_le
    have hrest := length_flatten_encodeUnit_le htail
    rw [List.flatMap_cons, List.flatten_cons, List.length_append, List.length_append] at hlength
    -- No unit is spelled shorter than it is written, so none is spelled longer either.
    have hsame := hhead.unique (spells_encodeUnit hhead.lt) (by omega)
    rw [List.flatMap_cons, List.flatten_cons, hsame, ih (by omega)]

/-! ## Characters

A character is one unit, or two that make up a pair of surrogates. Units that are read must pair
up. -/

/-- What the units of a character are: itself, or a pair of surrogates. Characters are no surrogates
themselves, so the two kinds of units do not mix. -/
theorem unitsOfChar_cases (c : Char) :
    (unitsOfChar c = [c.toNat] ∧ c.toNat < 0x10000 ∧ isHigh c.toNat = false ∧ isLow c.toNat = false)
      ∨ ∃ high low, unitsOfChar c = [high, low] ∧ isHigh high = true ∧ isLow low = true
        ∧ c.toNat = 0x10000 + (high - 0xD800) * 0x400 + (low - 0xDC00) := by
  -- No character has a number among the surrogates.
  have hvalid : c.toNat < 0xD800 ∨ 0xDFFF < c.toNat ∧ c.toNat < 0x110000 := c.valid
  unfold unitsOfChar
  split
  · next hsmall =>
    refine .inl ⟨rfl, hsmall, ?_, ?_⟩
    · simp only [isHigh, Bool.and_eq_false_iff, decide_eq_false_iff_not]
      omega
    · simp only [isLow, Bool.and_eq_false_iff, decide_eq_false_iff_not]
      omega
  · refine .inr ⟨_, _, rfl, ?_, ?_, ?_⟩
    · simp only [isHigh, Bool.and_eq_true, decide_eq_true_eq]
      omega
    · simp only [isLow, Bool.and_eq_true, decide_eq_true_eq]
      omega
    · omega

/-- All units of characters have 16 bits. -/
theorem unitsOfChar_lt (c : Char) : ∀ u ∈ unitsOfChar c, u < 0x10000 := by
  rcases unitsOfChar_cases c with ⟨hunits, hsmall, _⟩ | ⟨high, low, hunits, hhigh, hlow, _⟩
  · rw [hunits]
    simpa using hsmall
  · simp only [isHigh, isLow, Bool.and_eq_true, decide_eq_true_eq] at hhigh hlow
    rw [hunits]
    intro u hu
    simp only [List.mem_cons, List.not_mem_nil, or_false] at hu
    omega

/-- The units of a character are read as the character. -/
theorem charsOnto_unitsOfChar (c : Char) (done : List Char) (rest : List Nat) :
    charsOnto done (unitsOfChar c ++ rest) = charsOnto (c :: done) rest := by
  rcases unitsOfChar_cases c with ⟨hunits, _, hhigh, hlow⟩ | ⟨high, low, hunits, hhigh, hlow, hchar⟩
  · rw [hunits, List.cons_append, List.nil_append, charsOnto.eq_def]
    simp only [hhigh, hlow, Bool.false_eq_true, if_false, Char.ofNat_toNat]
  · rw [hunits, List.cons_append, List.cons_append, List.nil_append, charsOnto.eq_def]
    simp only [hhigh, hlow, if_true, ← hchar, Char.ofNat_toNat]

/-- The units of characters are read as these characters. -/
theorem charsOnto_flatMap_unitsOfChar (chars done : List Char) :
    charsOnto done (chars.flatMap unitsOfChar) = some (done.reverse ++ chars) := by
  induction chars generalizing done with
  | nil => rw [List.flatMap_nil, charsOnto, List.append_nil]
  | cons c chars ih =>
    rw [List.flatMap_cons, charsOnto_unitsOfChar, ih, List.reverse_cons, List.append_assoc,
      List.singleton_append]

theorem toNat_ofNat {u : Nat} (hvalid : u.isValidChar) : (Char.ofNat u).toNat = u := by
  rw [Char.ofNat, dif_pos hvalid]
  rfl

/-- A number that is no surrogate and fits 16 bits is one unit of the character it stands for. -/
theorem unitsOfChar_ofNat {u : Nat} (hu : u < 0x10000) (hhigh : isHigh u = false)
    (hlow : isLow u = false) : unitsOfChar (Char.ofNat u) = [u] := by
  simp only [isHigh, isLow, Bool.and_eq_false_iff, decide_eq_false_iff_not] at hhigh hlow
  have hvalid : u.isValidChar := by
    unfold Nat.isValidChar
    omega
  have hnat : (Char.ofNat u).toNat = u := toNat_ofNat hvalid
  rw [unitsOfChar, hnat, if_pos hu]

/-- A pair of surrogates is the units of the character it stands for. The bits of the pair are told
apart again. -/
theorem unitsOfChar_pair {high low : Nat} (hhigh : isHigh high = true) (hlow : isLow low = true) :
    unitsOfChar (Char.ofNat (0x10000 + (high - 0xD800) * 0x400 + (low - 0xDC00)))
      = [high, low] := by
  simp only [isHigh, isLow, Bool.and_eq_true, decide_eq_true_eq] at hhigh hlow
  generalize hcode : 0x10000 + (high - 0xD800) * 0x400 + (low - 0xDC00) = code
  have hvalid : code.isValidChar := by
    unfold Nat.isValidChar
    omega
  have hnat : (Char.ofNat code).toNat = code := toNat_ofNat hvalid
  have hfirst : 0xD800 + (code - 0x10000) / 0x400 = high := by omega
  have hsecond : 0xDC00 + (code - 0x10000) % 0x400 = low := by omega
  rw [unitsOfChar, hnat, if_neg (by omega), hfirst, hsecond]

/-- The units of what is read are those that it was read from. A surrogate on its own is refused, so
every unit is one of a character. -/
theorem flatMap_unitsOfChar {done chars : List Char} {units : List Nat}
    (hunits : ∀ u ∈ units, u < 0x10000) (h : charsOnto done units = some chars) :
    chars.flatMap unitsOfChar = done.reverse.flatMap unitsOfChar ++ units := by
  -- On the reader: units are used up one at a time, or two for a pair.
  fun_induction charsOnto done units with
  | case1 done =>
    cases h
    rw [List.append_nil]
  | case2 done u hhigh v rest hlow ih =>
    have hrest : ∀ u ∈ rest, u < 0x10000 := fun u hu => hunits u (by simp [hu])
    rw [ih hrest h, List.reverse_cons, List.flatMap_append, List.flatMap_singleton,
      unitsOfChar_pair hhigh hlow, List.append_assoc]
    rfl
  | case3 => cases h
  | case4 => cases h
  | case5 => cases h
  | case6 done u rest hhigh hlow ih =>
    obtain ⟨hu, hrest⟩ := List.forall_mem_cons.1 hunits
    rw [ih hrest h, List.reverse_cons, List.flatMap_append, List.flatMap_singleton,
      unitsOfChar_ofNat hu (by simpa using hhigh) (by simpa using hlow), List.append_assoc]
    rfl

/-! ## Texts

A text is spelled by spelling its code units, so what holds of units holds of texts. -/

theorem encode_eq (text : String) :
    encode text = (text.toList.flatMap unitsOfChar).flatMap encodeUnit := by
  unfold encode encodeChar
  rw [List.flatMap_assoc]

/-- **A text is read exactly where its code units are spelled.** This has all that is to be said
about reading; the rest follows from what spellings there are. -/
theorem decode?_eq_some_iff {bs : Bytes} {text : String} :
    decode? bs = some text ↔ ∃ spellings, bs = spellings.flatten
      ∧ List.Forall₂ Spells (text.toList.flatMap unitsOfChar) spellings := by
  constructor
  · intro h
    obtain ⟨units, hunits, h⟩ := Option.bind_eq_some_iff.1 h
    obtain ⟨chars, hchars, h⟩ := Option.bind_eq_some_iff.1 h
    cases h
    obtain ⟨_, spellings, rfl, rfl, hspellings⟩ := unitsOnto_eq_some_iff.1 hunits
    have hbound : ∀ u ∈ units, u < 0x10000 := by
      intro u hu
      obtain ⟨_, _, hspells⟩ := exists_of_mem_left hspellings hu
      exact hspells.lt
    -- The characters give back the units they were made from, since no unit is too large.
    have hsame := flatMap_unitsOfChar hbound hchars
    rw [List.reverse_nil, List.flatMap_nil, List.nil_append] at hsame
    rw [String.toList_ofList, hsame]
    exact ⟨spellings, rfl, hspellings⟩
  · rintro ⟨spellings, rfl, hspellings⟩
    have hunits : unitsOnto [] spellings.flatten = some (text.toList.flatMap unitsOfChar) :=
      unitsOnto_eq_some_iff.2 ⟨_, spellings, rfl, rfl, hspellings⟩
    have hchars : charsOnto [] (text.toList.flatMap unitsOfChar) = some text.toList := by
      rw [charsOnto_flatMap_unitsOfChar]
      rfl
    unfold decode?
    rw [hunits]
    show (charsOnto [] _ >>= fun chars => _) = _
    rw [hchars]
    exact congrArg some (String.ofList_toList ..)

/-- **Every text is read back from its encoding.** -/
theorem decode?_encode (text : String) : decode? (encode text) = some text := by
  refine decode?_eq_some_iff.2 ⟨(text.toList.flatMap unitsOfChar).map encodeUnit, ?_, ?_⟩
  · rw [encode_eq, List.flatMap_def]
  · rw [List.forall₂_map_right_iff, List.forall₂_same]
    intro u hu
    obtain ⟨c, _, hc⟩ := List.mem_flatMap.1 hu
    exact spells_encodeUnit (unitsOfChar_lt c u hc)

/-- Below 0x80, a byte is its own code unit and its own UTF-8. Both encodings agree there. -/
theorem ascii_eq {b : UInt8} (hb : b < 0x80) :
    unitsOfChar (Char.ofNat b.toNat) = [b.toNat]
      ∧ String.utf8EncodeChar (Char.ofNat b.toNat) = [b] := by
  have hlow : b.toNat < 0x80 := hb
  have hvalid : b.toNat.isValidChar := .inl (by omega)
  have hnat : (Char.ofNat b.toNat).val.toNat = b.toNat := toNat_ofNat hvalid
  constructor
  · unfold unitsOfChar
    rw [show (Char.ofNat b.toNat).toNat = b.toNat from hnat, if_pos (by omega)]
  · unfold String.utf8EncodeChar
    simp only [hnat]
    rw [if_pos (by omega), UInt8.ofNat_toNat]

/-- **Bytes below 0x80 other than zero are read as UTF-8.** Most names are such texts. -/
theorem decode?_eq_fromUTF8? {bs : Bytes} (h : ∀ b ∈ bs, b ≠ 0 ∧ b < 0x80) :
    decode? bs = String.fromUTF8? bs.toByteArray := by
  have hunits : bs.flatMap (fun b => unitsOfChar (Char.ofNat b.toNat))
      = bs.map fun b => b.toNat :=
    (List.flatMap_congr fun b hb => (ascii_eq (h b hb).2).1).trans List.map_eq_flatMap.symm
  have hutf8 : bs.flatMap (fun b => String.utf8EncodeChar (Char.ofNat b.toNat)) = bs :=
    (List.flatMap_congr fun b hb => (ascii_eq (h b hb).2).2).trans (List.flatMap_singleton' bs)
  -- The text is that of the bytes, one character each, for both readers.
  have hread : decode? bs = some (String.ofList (bs.map fun b => Char.ofNat b.toNat)) := by
    refine decode?_eq_some_iff.2 ⟨bs.map fun b => [b], ?_, ?_⟩
    · rw [← List.flatMap_def, List.flatMap_singleton']
    · rw [String.toList_ofList, List.flatMap_map, hunits, List.forall₂_map_left_iff,
        List.forall₂_map_right_iff, List.forall₂_same]
      exact fun b hb => .one rfl (h b hb).1 (h b hb).2
  have hbytes : bs.toByteArray = (bs.map fun b => Char.ofNat b.toNat).utf8Encode := by
    unfold List.utf8Encode
    rw [List.flatMap_map, hutf8]
  rw [hread, hbytes, String.fromUTF8?, dif_pos ⟨_, rfl⟩]
  rfl

/-- No byte of an encoding is zero, and none is one that UTF-8 has in supplementary characters
only. -/
theorem ne_zero_and_lt_of_mem_encode {text : String} : ∀ b ∈ encode text, b ≠ 0 ∧ b < 0xF0 := by
  obtain ⟨spellings, hbytes, hspellings⟩ := decode?_eq_some_iff.1 (decode?_encode text)
  rw [hbytes]
  intro b hb
  obtain ⟨spelling, hmem, hb⟩ := List.mem_flatten.1 hb
  obtain ⟨_, _, hspells⟩ := exists_of_mem_right hspellings hmem
  exact hspells.ne_zero_and_lt b hb

/-- **No spelling of a text is shorter than its encoding.** -/
theorem length_encode_le {bs : Bytes} {text : String} (h : decode? bs = some text) :
    (encode text).length ≤ bs.length := by
  obtain ⟨spellings, rfl, hspellings⟩ := decode?_eq_some_iff.1 h
  rw [encode_eq]
  exact length_flatten_encodeUnit_le hspellings

/-- **The encoding of a text is its only shortest spelling.** -/
theorem encode_eq_of_length_le {bs : Bytes} {text : String} (h : decode? bs = some text)
    (hlength : bs.length ≤ (encode text).length) : encode text = bs := by
  obtain ⟨spellings, rfl, hspellings⟩ := decode?_eq_some_iff.1 h
  rw [encode_eq] at hlength ⊢
  exact (flatten_eq_of_length_le hspellings hlength).symm

end ClassLoom.ModifiedUtf8
