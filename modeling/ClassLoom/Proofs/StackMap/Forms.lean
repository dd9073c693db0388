import ClassLoom.Proofs.StackMap.RoundTrip

/-!
# How a table spells its frames

A frame that leaves all locals in place has two spellings: a short one, whose first byte holds the
offset change, and an extended one, with a word behind its first byte. Only the short one is
written for an offset change below 64, so a table can be longer than what is written for its
frames, by two bytes for each extended form that was not needed. That is the whole freedom there
is: everything else in a table is read from one spelling only.

* `Form`, `forms`: how each frame of a payload is spelled;
* `Frame.spells_of_readChange`: what a frame was read from, against what is written for it;
* `spelled_of_readOnto`: the same for a row of frames.
-/

namespace ClassLoom

/-- Whether a reader takes only what is written for the items that it gives. -/
def ReadsOnly {α : Type} (p : Reader α) (write : α → Except ClassError Bytes) : Prop :=
  ∀ bs a rest, p bs = .ok (a, rest) → ∃ front, write a = .ok front ∧ bs = front ++ rest

/-- Items in a row are read from their written forms only, if each is. -/
theorem ReadsOnly.times {α : Type} {p : Reader α} {write : α → Except ClassError Bytes}
    (hp : ReadsOnly p write) {n : Nat} {bs rest : Bytes} {items : List α}
    (h : Reader.times n p bs = .ok (items, rest)) :
    ∃ parts, items.mapM write = .ok parts ∧ bs = parts.flatten ++ rest := by
  induction n generalizing bs items with
  | zero =>
    cases h
    exact ⟨[], rfl, rfl⟩
  | succ n ih =>
    obtain ⟨a, mid, more, ha, hmore, rfl⟩ := Reader.times_succ_eq_ok.1 h
    obtain ⟨front, hfront, rfl⟩ := hp bs a mid ha
    obtain ⟨parts, hparts, rfl⟩ := ih hmore
    refine ⟨front :: parts, ?_, by rw [List.flatten_cons, List.append_assoc]⟩
    rw [mapM_eq_ok] at hparts ⊢
    exact .cons hfront hparts

namespace StackMap

/-! ## Entries

The tag of an entry settles what follows, so there is one written form for each. -/

namespace Entry

/-- An entry is read from its written form only: its first byte tells which of the entries it is,
and two of them have a word behind it. -/
theorem readsOnly : ReadsOnly read bytes := by
  intro bs e rest h
  obtain ⟨tag, mid, htag, hentry⟩ := Reader.bind_eq_ok.1 h
  obtain rfl := Reader.byte_eq_ok.1 htag
  have hbyte : UInt8.ofNat tag.toNat = tag := UInt8.ofNat_toNat
  generalize tag.toNat = n at hentry hbyte
  subst hbyte
  split at hentry
  case h_8 =>
    obtain ⟨index, _, hindex, hend⟩ := Reader.bind_eq_ok.1 hentry
    cases hend
    obtain rfl := Reader.word16_eq_ok.1 hindex
    exact ⟨_, rfl, rfl⟩
  case h_9 =>
    obtain ⟨offset, _, hoffset, hend⟩ := Reader.bind_eq_ok.1 hentry
    cases hend
    obtain rfl := Reader.word16_eq_ok.1 hoffset
    refine ⟨8 :: Bytes.word16 offset, ?_, rfl⟩
    simp only [bytes, if_pos (show offset.toNat < 65536 from offset.toNat_lt), UInt16.ofNat_toNat]
    rfl
  case h_10 => cases hentry
  all_goals
    -- The tag stands alone.
    cases hentry
    exact ⟨_, rfl, rfl⟩

theorem bytesOfAll_of_times {n : Nat} {bs rest : ClassLoom.Bytes} {entries : List Entry}
    (h : Reader.times n read bs = .ok (entries, rest)) :
    ∃ front, bytesOfAll entries = .ok front ∧ bs = front ++ rest := by
  obtain ⟨parts, hparts, hbs⟩ := readsOnly.times h
  exact ⟨parts.flatten, bind_eq_ok.2 ⟨parts, hparts, rfl⟩, hbs⟩

/-- Entries of a table are read from their written forms only, with their count in front. -/
theorem bytesOfAll_of_table {bs rest : ClassLoom.Bytes} {entries : List Entry}
    (h : Reader.table read bs = .ok (entries, rest)) :
    entries.length < 65536 ∧ ∃ count front, Bytes.count16 entries.length = .ok count
      ∧ bytesOfAll entries = .ok front ∧ bs = count ++ front ++ rest := by
  obtain ⟨count, mid, hcount, h⟩ := Reader.bind_eq_ok.1 h
  obtain ⟨front, hfront, rfl⟩ := bytesOfAll_of_times h
  have hlength := Reader.length_of_times h
  have hlt : entries.length < 65536 := hlength ▸ count.toNat_lt
  refine ⟨hlt, Bytes.word16 count, front, ?_, hfront, ?_⟩
  · unfold Bytes.count16
    rw [if_pos hlt, hlength, UInt16.ofNat_toNat]
  · rw [Reader.word16_eq_ok.1 hcount, List.append_assoc]

end Entry

/-! ## Frames

A frame can be spelled with an offset change of its own where the first byte could have held it. A
writer that looks at frames only cannot know which of the two forms was read; it takes the short
one. -/

/-- How a frame is spelled: its first byte, and its offset change. -/
structure Form where
  kind : UInt8
  delta : Nat
  deriving DecidableEq, Repr

/-- Whether the form is an extended one where the short one would do. -/
def Form.IsLoose (form : Form) : Prop :=
  (form.kind = 247 ∨ form.kind = 251) ∧ form.delta ≤ 63

instance (form : Form) : Decidable form.IsLoose := by
  unfold Form.IsLoose
  infer_instance

/-- Reads how a frame is spelled. -/
def Form.read : Reader Form := do
  let kind ← Reader.byte
  let (delta, _) ← Frame.readChange kind.toNat
  return { kind, delta }

/-- How the frames in a payload are spelled. -/
def forms (info : Bytes) : Except ClassError (List Form) :=
  Reader.all (Reader.table Form.read) info

/-- Whether a change names no more entries than a table has room for. -/
def Change.HasRoom : Change → Prop
  | full locals stack => locals.length < 65536 ∧ stack.length < 65536
  | _ => True

namespace Frame

/-- What is known of a frame whose first byte is `kind` when it was read from `bs`, behind that
byte: what is written for it is shorter by two bytes if its form was extended for nothing, and
the same otherwise. -/
structure Spells (kind : UInt8) (bs : Bytes) (delta : Nat) (c : Change) (rest : Bytes) : Prop where
  wellFormed : c.WellFormed
  hasRoom : c.HasRoom
  small : delta < 65536
  written : ∃ front out, kind :: bs = front ++ rest
    ∧ changeBytes (UInt16.ofNat delta) c = .ok out
    ∧ ((Form.mk kind delta).IsLoose → front.length = out.length + 2)
    ∧ (¬ (Form.mk kind delta).IsLoose → front = out)

section Spells

variable {kind : UInt8} {bs rest : Bytes} {delta : Nat} {c : Change}

/-- A frame that has no other form. -/
theorem Spells.of_bytes (front : Bytes) (hwf : c.WellFormed) (hroom : c.HasRoom)
    (hsmall : delta < 65536) (hfront : kind :: bs = front ++ rest)
    (hout : changeBytes (UInt16.ofNat delta) c = .ok front)
    (htight : ¬ (Form.mk kind delta).IsLoose) : Spells kind bs delta c rest where
  wellFormed := hwf
  hasRoom := hroom
  small := hsmall
  written := ⟨front, front, hfront, hout, fun h => absurd h htight, fun _ => rfl⟩

/-- The short forms, of the offset change that their first byte holds. The change itself is nothing,
or one entry on the stack. -/
theorem spells_of_short (hkind : kind.toNat < 128)
    (h : readChange kind.toNat bs = .ok ((delta, c), rest)) : Spells kind bs delta c rest := by
  have hbyte : UInt8.ofNat kind.toNat = kind := UInt8.ofNat_toNat
  have hshort (delta : Nat) : ¬ (Form.mk kind delta).IsLoose := by
    rintro ⟨rfl | rfl, _⟩ <;> exact absurd hkind (by decide)
  have hdelta (n : Nat) (hn : n < 64) : (UInt16.ofNat n).toNat = n :=
    UInt16.toNat_ofNat_of_lt' (show _ < 65536 by omega)
  unfold readChange at h
  by_cases hlow : kind.toNat < 64
  · rw [if_pos hlow] at h
    cases h
    -- Nothing behind the first byte.
    refine .of_bytes [kind] trivial trivial (by omega) rfl ?_ (hshort _)
    simp only [changeBytes, hdelta _ hlow, if_pos hlow, hbyte]
    rfl
  · rw [if_neg hlow, if_pos hkind] at h
    -- The stack is all that is behind the first byte.
    obtain ⟨stack, mid, hstack, hend⟩ := Reader.bind_eq_ok.1 h
    cases hend
    obtain ⟨front, hfront, rfl⟩ := Entry.readsOnly _ _ _ hstack
    refine .of_bytes (kind :: front) trivial trivial (by omega) rfl ?_ (hshort _)
    have hsmall : kind.toNat - 64 < 64 := by omega
    simp only [changeBytes, hdelta _ hsmall, if_pos hsmall, hfront,
      show 64 + (kind.toNat - 64) = kind.toNat by omega, hbyte]
    rfl

section Long

variable (d : UInt16)

/-- A frame that changes nothing, in the form with a word for its offset change. -/
theorem spells_same : Spells 251 (Bytes.word16 d ++ rest) d.toNat .same rest := by
  by_cases hloose : d.toNat < 64
  · refine ⟨trivial, trivial, d.toNat_lt, 251 :: Bytes.word16 d, [UInt8.ofNat d.toNat], rfl, ?_,
      fun _ => rfl, fun htight => absurd ⟨.inr rfl, Nat.le_of_lt_succ hloose⟩ htight⟩
    simp only [changeBytes, UInt16.ofNat_toNat, if_pos hloose]
    rfl
  · refine .of_bytes (251 :: Bytes.word16 d) trivial trivial d.toNat_lt rfl ?_
      fun h => hloose (Nat.lt_succ_of_le h.2)
    simp only [changeBytes, UInt16.ofNat_toNat, if_neg hloose]
    rfl

/-- A frame with one entry on its stack, in the form with a word for its offset change. The form of
one byte is read as well, and both are read as the same frame. -/
theorem spells_sameLocals {stack : Entry} {front : Bytes} (hfront : stack.bytes = .ok front) :
    Spells 247 (Bytes.word16 d ++ (front ++ rest)) d.toNat (.sameLocals stack) rest := by
  by_cases hloose : d.toNat < 64
  · refine ⟨trivial, trivial, d.toNat_lt, 247 :: (Bytes.word16 d ++ front),
      UInt8.ofNat (64 + d.toNat) :: front, rfl, ?_, fun _ => rfl,
      fun htight => absurd ⟨.inl rfl, Nat.le_of_lt_succ hloose⟩ htight⟩
    simp only [changeBytes, UInt16.ofNat_toNat, if_pos hloose, hfront]
    rfl
  · refine .of_bytes (247 :: (Bytes.word16 d ++ front)) trivial trivial d.toNat_lt rfl ?_
      fun h => hloose (Nat.lt_succ_of_le h.2)
    simp only [changeBytes, UInt16.ofNat_toNat, if_neg hloose, hfront]
    rfl

/-- A frame without up to three of the local variables in front of it: how many is in the first
byte. -/
theorem spells_chop (hlow : 248 ≤ kind.toNat) (hhigh : kind.toNat < 251) :
    Spells kind (Bytes.word16 d ++ rest) d.toNat (.chop (251 - kind.toNat)) rest := by
  refine .of_bytes (kind :: Bytes.word16 d) ⟨by omega, by omega⟩ trivial d.toNat_lt rfl ?_ ?_
  · simp only [changeBytes, UInt16.ofNat_toNat,
      show 251 - (251 - kind.toNat) = kind.toNat by omega, UInt8.ofNat_toNat]
    rfl
  · rintro ⟨rfl | rfl, _⟩
    · exact absurd hlow (by decide)
    · exact absurd hhigh (by decide)

/-- A frame with up to three local variables more than the one in front of it. -/
theorem spells_append (hlow : 252 ≤ kind.toNat) (hhigh : kind.toNat < 255) {locals : List Entry}
    {front : Bytes} (hlength : locals.length = kind.toNat - 251)
    (hfront : Entry.bytesOfAll locals = .ok front) :
    Spells kind (Bytes.word16 d ++ (front ++ rest)) d.toNat (.append locals) rest := by
  refine .of_bytes (kind :: (Bytes.word16 d ++ front)) ⟨by omega, by omega⟩ trivial d.toNat_lt rfl
    ?_ ?_
  · simp only [changeBytes, UInt16.ofNat_toNat, hfront, hlength,
      show 251 + (kind.toNat - 251) = kind.toNat by omega, UInt8.ofNat_toNat]
    rfl
  · rintro ⟨rfl | rfl, _⟩ <;> exact absurd hlow (by decide)

/-- A frame that is written out, with both its tables counted. -/
theorem spells_full {locals stack : List Entry} {localCount ls stackCount ss : Bytes}
    (hroom : (Change.full locals stack).HasRoom)
    (hlocalCount : Bytes.count16 locals.length = .ok localCount)
    (hls : Entry.bytesOfAll locals = .ok ls)
    (hstackCount : Bytes.count16 stack.length = .ok stackCount)
    (hss : Entry.bytesOfAll stack = .ok ss) :
    Spells 255 (Bytes.word16 d ++ (localCount ++ ls ++ (stackCount ++ ss ++ rest))) d.toNat
      (.full locals stack) rest := by
  refine .of_bytes (255 :: (Bytes.word16 d ++ localCount ++ ls ++ stackCount ++ ss)) trivial hroom
    d.toNat_lt (by simp) ?_ ?_
  · simp only [changeBytes, UInt16.ofNat_toNat, hlocalCount, hls, hstackCount, hss]
    rfl
  · rintro ⟨h | h, _⟩ <;> cases h

end Long

/-- The forms with a word for their offset change. Of these only the frames that change nothing and
those with one entry on the stack have a short form as well. -/
theorem spells_of_long (hkind : 247 ≤ kind.toNat)
    (h : readChange kind.toNat bs = .ok ((delta, c), rest)) : Spells kind bs delta c rest := by
  have hlast := kind.toNat_lt
  unfold readChange at h
  rw [if_neg (by omega), if_neg (by omega), if_neg (by omega)] at h
  obtain ⟨d, mid, hd, hchange⟩ := Reader.bind_eq_ok.1 h
  clear h
  obtain rfl := Reader.word16_eq_ok.1 hd
  -- Which form it is shows in the first byte, from the single values to the ranges.
  split at hchange
  · next h247 =>
    obtain ⟨stack, _, hstack, hend⟩ := Reader.bind_eq_ok.1 hchange
    cases hend
    obtain ⟨front, hfront, rfl⟩ := Entry.readsOnly _ _ _ hstack
    obtain rfl : kind = 247 := UInt8.toNat.inj h247
    exact spells_sameLocals d hfront
  split at hchange
  · next hchop =>
    cases hchange
    exact spells_chop d (by omega) hchop
  split at hchange
  · next h251 =>
    cases hchange
    obtain rfl : kind = 251 := UInt8.toNat.inj h251
    exact spells_same d
  split at hchange
  · next happend =>
    obtain ⟨locals, _, hlocals, hend⟩ := Reader.bind_eq_ok.1 hchange
    cases hend
    obtain ⟨front, hfront, rfl⟩ := Entry.bytesOfAll_of_times hlocals
    exact spells_append d (by omega) happend (Reader.length_of_times hlocals) hfront
  · obtain ⟨locals, _, hlocals, hchange⟩ := Reader.bind_eq_ok.1 hchange
    obtain ⟨stack, _, hstack, hend⟩ := Reader.bind_eq_ok.1 hchange
    cases hend
    obtain ⟨hmany, localCount, ls, hlocalCount, hls, rfl⟩ := Entry.bytesOfAll_of_table hlocals
    obtain ⟨hdeep, stackCount, ss, hstackCount, hss, rfl⟩ := Entry.bytesOfAll_of_table hstack
    obtain rfl : kind = 255 := UInt8.toNat.inj (show kind.toNat = 255 by omega)
    exact spells_full d ⟨hmany, hdeep⟩ hlocalCount hls hstackCount hss

/-- **What a frame was read from** is what is written for it, but for an extended form that was not
needed. -/
theorem spells_of_readChange (h : readChange kind.toNat bs = .ok ((delta, c), rest)) :
    Spells kind bs delta c rest := by
  by_cases hshort : kind.toNat < 128
  · exact spells_of_short hshort h
  by_cases hlong : kind.toNat < 247
  · -- No frame starts with a byte in between.
    unfold readChange at h
    rw [if_neg (by omega), if_neg hshort, if_pos hlong] at h
    cases h
  · exact spells_of_long (Nat.le_of_not_lt hlong) h

end Spells

/-- The offset change is what the offset was counted from. -/
theorem delta?_offsetAfter (previous : Option Nat) (delta : Nat) :
    delta? previous (offsetAfter previous delta) = some delta := by
  cases previous with
  | none => rfl
  | some p =>
    show (if p < p + delta + 1 then some (p + delta + 1 - p - 1) else none) = some delta
    rw [if_pos (by omega), show p + delta + 1 - p - 1 = delta by omega]

end Frame

/-! ## Tables

Offset changes are counted from the frame in front, so a table is read and written with the offset
of the last frame at hand. -/

/-- Frames that were read one behind the other, the first of them behind a frame at `previous`, with
the forms in which they were spelled and the bytes that are left. -/
inductive Row : Option Nat → Bytes → List Frame → List Form → Bytes → Prop
  | nil {previous : Option Nat} {rest : Bytes} : Row previous rest [] [] rest
  | cons {previous : Option Nat} {kind : UInt8} {delta : Nat} {change : Change}
      {bs mid rest : Bytes} {frames : List Frame} {shapes : List Form}
      (hread : Frame.readChange kind.toNat bs = .ok ((delta, change), mid))
      (hrow : Row (some (Frame.offsetAfter previous delta)) mid frames shapes rest) :
      Row previous (kind :: bs) ({ offset := Frame.offsetAfter previous delta, change } :: frames)
        ({ kind, delta } :: shapes) rest

/-- What is read frame by frame is a row, behind the frames that have been read before. The offset
of each frame follows from that of the one before it. -/
theorem row_of_readOnto {n : Nat} {done frames : List Frame} {bs rest : Bytes}
    (h : readOnto n done bs = .ok (frames, rest)) :
    ∃ more shapes, frames = done.reverse ++ more ∧ more.length = n
      ∧ Row (done.head?.map (·.offset)) bs more shapes rest := by
  induction n generalizing done bs with
  | zero =>
    cases h
    exact ⟨[], [], (List.append_nil _).symm, rfl, .nil⟩
  | succ n ih =>
    unfold readOnto at h
    split at h
    · cases h
    · next delta change mid hread =>
      obtain ⟨kind, behind, hkind, hchange⟩ := Reader.bind_eq_ok.1 hread
      obtain rfl := Reader.byte_eq_ok.1 hkind
      -- The frames that come behind this one are counted from it, which is what the row asks for.
      obtain ⟨more, shapes, rfl, hlength, hrow⟩ := ih h
      exact ⟨_ :: more, _ :: shapes, by simp, by rw [List.length_cons, hlength],
        .cons hchange hrow⟩

namespace Row

variable {previous : Option Nat} {bs rest : Bytes} {frames : List Frame} {shapes : List Form}

/-- Every frame that was read has a written form. -/
theorem fits (h : Row previous bs frames shapes rest) :
    ∀ frame ∈ frames, frame.change.WellFormed ∧ frame.change.HasRoom := by
  induction h with
  | nil => exact fun _ hframe => nomatch hframe
  | cons hread _ ih =>
    have hspells := Frame.spells_of_readChange hread
    exact List.forall_mem_cons.2 ⟨⟨hspells.wellFormed, hspells.hasRoom⟩, ih⟩

/-- The forms of a row are read from the same bytes. -/
theorem times_read (h : Row previous bs frames shapes rest) :
    Reader.times frames.length Form.read bs = .ok (shapes, rest) := by
  induction h with
  | nil => rfl
  | @cons _ kind delta change bs mid _ _ _ hread _ ih =>
    rw [List.length_cons, Reader.times_succ_eq_ok]
    refine ⟨{ kind, delta }, mid, _, ?_, ih, rfl⟩
    refine Reader.bind_eq_ok.2 ⟨kind, bs, rfl, ?_⟩
    exact Reader.bind_eq_ok.2 ⟨(delta, change), mid, hread, rfl⟩

/-- **What a row was read from** is longer than what is written for its frames by two bytes for each
loose form, and the same if there is none. -/
theorem written (h : Row previous bs frames shapes rest) :
    ∃ front out, bs = front ++ rest
      ∧ (∀ done, bytesOnto done previous frames = .ok (done.reverse.flatten ++ out))
      ∧ front.length = out.length + 2 * shapes.countP (fun form => form.IsLoose)
      ∧ (shapes.countP (fun form => form.IsLoose) = 0 → front = out) := by
  induction h with
  | nil => exact ⟨[], [], rfl, fun done => congrArg Except.ok (List.append_nil _).symm, rfl,
    fun _ => rfl⟩
  | @cons previous kind delta change _ _ _ _ _ hread _ ih =>
    obtain ⟨_, _, hsmall, front, out, hfront, hout, hloose, htight⟩ :=
      Frame.spells_of_readChange hread
    obtain ⟨behind, more, rfl, hmore, hlength, hsame⟩ := ih
    refine ⟨front ++ behind, out ++ more, by rw [hfront, List.append_assoc], fun done => ?_, ?_, ?_⟩
    · unfold bytesOnto
      rw [Frame.delta?_offsetAfter]
      simp only
      rw [if_neg (by omega), hout]
      exact (hmore (out :: done)).trans (by simp)
    · rw [List.countP_cons, List.length_append, List.length_append, hlength]
      -- A loose form makes the difference of two bytes, and it is counted once.
      by_cases hform : (Form.mk kind delta).IsLoose
      · rw [if_pos (decide_eq_true hform), hloose hform]
        omega
      · rw [if_neg (by simpa using hform), htight hform]
        omega
    · intro hnone
      rw [List.countP_cons] at hnone
      have hform : ¬ (Form.mk kind delta).IsLoose := fun hform => by
        rw [if_pos (decide_eq_true hform)] at hnone
        omega
      rw [htight hform, hsame (by omega)]

end Row

/-- **What a payload says, and how.** Its frames and their forms, and what is written for them. -/
theorem row_of_parse {info : Bytes} {frames : List Frame} (h : parse info = .ok frames) :
    ∃ count bs shapes, info = Bytes.word16 count ++ bs ∧ frames.length = count.toNat
      ∧ Row none bs frames shapes [] := by
  obtain ⟨count, bs, hcount, hread⟩ := Reader.bind_eq_ok.1 (Reader.all_eq_ok.1 h)
  obtain ⟨more, shapes, rfl, hlength, hrow⟩ := row_of_readOnto hread
  exact ⟨count, bs, shapes, Reader.word16_eq_ok.1 hcount, hlength, hrow⟩

/-- Frames that were read are well-formed: a frame that takes away or adds entries does so for one
to three. -/
theorem wellFormed_of_parse {info : Bytes} {frames : List Frame} (h : parse info = .ok frames) :
    ∀ frame ∈ frames, frame.change.WellFormed := by
  obtain ⟨_, _, _, -, -, hrow⟩ := row_of_parse h
  exact fun frame hframe => (hrow.fits frame hframe).1

/-- A table of frames that were read can be written, in at most as many bytes, and in the same ones
unless a form was loose. -/
theorem bytes_of_parse {info : Bytes} {frames : List Frame} (h : parse info = .ok frames) :
    ∃ out shapes, bytes frames = .ok out ∧ forms info = .ok shapes ∧ out.length ≤ info.length
      ∧ (out = info ↔ ∀ form ∈ shapes, ¬ form.IsLoose) := by
  obtain ⟨count, bs, shapes, rfl, hcount, hrow⟩ := row_of_parse h
  obtain ⟨front, out, rfl, hout, hlength, hsame⟩ := hrow.written
  refine ⟨Bytes.word16 count ++ out, shapes, ?_, ?_, ?_, ?_⟩
  · have hwritten : Bytes.count16 frames.length = .ok (Bytes.word16 count) := by
      unfold Bytes.count16
      rw [hcount, if_pos count.toNat_lt, UInt16.ofNat_toNat]
    unfold bytes
    rw [hwritten, hout []]
    rfl
  · refine Reader.all_eq_ok.2 (Reader.bind_eq_ok.2 ⟨count, _, Reader.word16_append .., ?_⟩)
    rw [← hcount]
    exact hrow.times_read
  · simp only [List.length_append, List.length_nil]
    omega
  -- Equal bytes are equally long, so no form of the row can have been loose.
  · have hnone : shapes.countP (fun form => form.IsLoose) = 0
        ↔ ∀ form ∈ shapes, ¬ form.IsLoose := by
      simp [List.countP_eq_zero]
    rw [← hnone]
    constructor
    · intro heq
      have := congrArg List.length heq
      simp only [List.length_append, List.length_nil] at this
      omega
    · intro hzero
      rw [hsame hzero, List.append_nil]

end StackMap
end ClassLoom
