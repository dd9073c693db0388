import ClassLoom.Proofs.ReadsBack
import ClassLoom.StackMap

/-!
# Stack map tables read back from their written form

Frames that can be written are read back as they were, if each chops or appends one to three
locals where it chops or appends any: the tags of frames leave no room for other numbers.

* `Frame.readsChange_changeBytes`: a single frame;
* `parse_bytes`: all frames of a table;
* `parse_sorted`: frames are read in the order of their offsets.
-/

namespace ClassLoom.StackMap

/-! ## Entries

An entry is a byte, with a word behind it in two cases. The offset of an uninitialized object may be
too large for a word, and is not written then. -/

namespace Entry

/-- A written entry is read back. Which of the entries it is shows in its first byte. -/
theorem readsBack {e : Entry} {bs : ClassLoom.Bytes} (h : e.bytes = .ok bs) :
    ReadsBack Entry.read bs e := by
  intro rest
  cases e with
  | object index =>
    cases h
    show (do return Entry.object (← Reader.word16) : Reader Entry) (Bytes.word16 index ++ rest) = _
    rw [Reader.bind_run (Reader.word16_append _ _)]
    rfl
  | uninitialized offset =>
    simp only [Entry.bytes] at h
    -- An offset is written if it fits a word.
    split at h
    · next hlt =>
      cases h
      show (do return Entry.uninitialized (← Reader.word16).toNat : Reader Entry)
        (Bytes.word16 (UInt16.ofNat offset) ++ rest) = _
      rw [Reader.bind_run (Reader.word16_append _ _), UInt16.toNat_ofNat', Nat.mod_eq_of_lt hlt]
      rfl
    · cases h
  | _ =>
    cases h
    rfl

/-- Written entries are read back one by one. -/
theorem readsBack_all {entries : List Entry} {bs : ClassLoom.Bytes}
    (h : bytesOfAll entries = .ok bs) :
    ∃ parts, bs = parts.flatten ∧ List.Forall₂ (ReadsBack Entry.read) parts entries := by
  obtain ⟨parts, hparts, hend⟩ := bind_eq_ok.1 h
  cases hend
  exact ⟨parts, rfl, ((mapM_eq_ok.1 hparts).imp fun _ _ => readsBack).flip⟩

end Entry

/-! ## Frames

A change is written in the shortest form that its offset change allows. Each form is read back on
its own, since the reader tells them apart by ranges of the first byte. -/

/-- Whether a change is one that a frame's tag can stand for. -/
def Change.WellFormed : Change → Prop
  | same => True
  | sameLocals _ => True
  | chop count => 1 ≤ count ∧ count ≤ 3
  | append locals => 1 ≤ locals.length ∧ locals.length ≤ 3
  | full _ _ => True

/-- A table of entries is read back. -/
theorem readsBack_table {entries : List Entry} {count bs : Bytes}
    (hcount : Bytes.count16 entries.length = .ok count) (h : Entry.bytesOfAll entries = .ok bs) :
    ReadsBack (Reader.table Entry.read) (count ++ bs) entries := by
  obtain ⟨parts, rfl, hparts⟩ := Entry.readsBack_all h
  exact .table hcount hparts

namespace Frame

section Change

variable {delta : UInt16} {bs : Bytes}

/-- The offset change of a frame in its long form. It is read first, and the form of the frame
decides what comes behind it. -/
theorem readChange_long {kind : Nat} (hkind : 247 ≤ kind) (rest : Bytes) :
    readChange kind (Bytes.word16 delta ++ rest) = (do
      if kind = 247 then return (delta.toNat, .sameLocals (← Entry.read))
      else if kind < 251 then return (delta.toNat, .chop (251 - kind))
      else if kind = 251 then return (delta.toNat, .same)
      else if kind < 255 then
        return (delta.toNat, .append (← Reader.times (kind - 251) Entry.read))
      else
        let locals ← Reader.table Entry.read
        let stack ← Reader.table Entry.read
        return (delta.toNat, .full locals stack) : Reader (Nat × Change)) rest := by
  unfold readChange
  rw [if_neg (by omega), if_neg (by omega), if_neg (by omega),
    Reader.bind_run (Reader.word16_append delta rest)]

/-- Whether a frame is read back from bytes. Which kind of frame the reader takes is decided by the
first of them. -/
def ReadsChange (delta : UInt16) (bs : Bytes) (c : Change) : Prop :=
  ∃ kind tail, bs = kind :: tail
    ∧ ∀ rest, readChange kind.toNat (tail ++ rest) = .ok ((delta.toNat, c), rest)

/-- A frame that changes nothing is read back, in the form of one byte or in that with a word. Which
of them it is depends on the distance from the frame before. -/
theorem readsChange_same (h : changeBytes delta .same = .ok bs) : ReadsChange delta bs .same := by
  simp only [changeBytes] at h
  split at h
  · next hsmall =>
    cases h
    refine ⟨_, [], rfl, fun rest => ?_⟩
    have hkind : (UInt8.ofNat delta.toNat).toNat = delta.toNat :=
      UInt8.toNat_ofNat_of_lt' (show _ < 256 by omega)
    rw [hkind]
    unfold readChange
    rw [if_pos hsmall]
    rfl
  · cases h
    refine ⟨_, _, rfl, fun rest => ?_⟩
    rw [readChange_long (by decide)]
    rfl

/-- So is a frame with one entry on its stack. -/
theorem readsChange_sameLocals {stack : Entry}
    (h : changeBytes delta (.sameLocals stack) = .ok bs) :
    ReadsChange delta bs (.sameLocals stack) := by
  simp only [changeBytes] at h
  -- Small distances are part of the first byte, large ones have a word of their own.
  split at h
  · next hsmall =>
    obtain ⟨ss, hss, h⟩ := bind_eq_ok.1 h
    cases h
    refine ⟨_, _, rfl, fun rest => ?_⟩
    have hkind : (UInt8.ofNat (64 + delta.toNat)).toNat = 64 + delta.toNat :=
      UInt8.toNat_ofNat_of_lt' (show _ < 256 by omega)
    rw [hkind]
    unfold readChange
    rw [if_neg (by omega), if_pos (by omega), Reader.bind_run (Entry.readsBack hss rest),
      Nat.add_sub_cancel_left]
    rfl
  · obtain ⟨ss, hss, h⟩ := bind_eq_ok.1 h
    cases h
    refine ⟨_, _, rfl, fun rest => ?_⟩
    rw [List.append_assoc, readChange_long (by decide)]
    show (Entry.read >>= fun e => _) (ss ++ rest) = _
    rw [Reader.bind_run (Entry.readsBack hss rest)]
    rfl

/-- So is a frame that takes local variables away. -/
theorem readsChange_chop {count : Nat} (hwf : (Change.chop count).WellFormed)
    (h : changeBytes delta (.chop count) = .ok bs) : ReadsChange delta bs (.chop count) := by
  cases h
  obtain ⟨hlow, hhigh⟩ := hwf
  refine ⟨_, _, rfl, fun rest => ?_⟩
  have hkind : (UInt8.ofNat (251 - count)).toNat = 251 - count :=
    UInt8.toNat_ofNat_of_lt' (show _ < 256 by omega)
  rw [hkind, readChange_long (by omega), if_neg (by omega), if_pos (by omega),
    show 251 - (251 - count) = count by omega]
  rfl

/-- So is a frame that adds local variables. -/
theorem readsChange_append {locals : List Entry} (hwf : (Change.append locals).WellFormed)
    (h : changeBytes delta (.append locals) = .ok bs) : ReadsChange delta bs (.append locals) := by
  obtain ⟨ls, hls, h⟩ := bind_eq_ok.1 h
  cases h
  obtain ⟨parts, rfl, hparts⟩ := Entry.readsBack_all hls
  obtain ⟨hlow, hhigh⟩ := hwf
  refine ⟨_, _, rfl, fun rest => ?_⟩
  have hkind : (UInt8.ofNat (251 + locals.length)).toNat = 251 + locals.length :=
    UInt8.toNat_ofNat_of_lt' (show _ < 256 by omega)
  rw [hkind, List.append_assoc, readChange_long (by omega), if_neg (by omega),
    if_neg (by omega), if_neg (by omega), if_pos (by omega), Nat.add_sub_cancel_left,
    Reader.bind_run (ReadsBack.times hparts rest)]
  rfl

/-- So is a frame that is written out. The locals come first, and then the stack, bottom first. -/
theorem readsChange_full {locals stack : List Entry}
    (h : changeBytes delta (.full locals stack) = .ok bs) :
    ReadsChange delta bs (.full locals stack) := by
  obtain ⟨localCount, hlocalCount, h⟩ := bind_eq_ok.1 h
  obtain ⟨ls, hls, h⟩ := bind_eq_ok.1 h
  obtain ⟨stackCount, hstackCount, h⟩ := bind_eq_ok.1 h
  obtain ⟨ss, hss, h⟩ := bind_eq_ok.1 h
  cases h
  refine ⟨_, _, rfl, fun rest => ?_⟩
  have hsplit : Bytes.word16 delta ++ localCount ++ ls ++ stackCount ++ ss ++ rest
      = Bytes.word16 delta ++ ((localCount ++ ls) ++ ((stackCount ++ ss) ++ rest)) := by
    simp only [List.append_assoc]
  rw [hsplit, readChange_long (by decide)]
  show (Reader.table Entry.read >>= fun locals => Reader.table Entry.read >>= fun stack => _)
    ((localCount ++ ls) ++ ((stackCount ++ ss) ++ rest)) = _
  rw [Reader.bind_run (readsBack_table hlocalCount hls _),
    Reader.bind_run (readsBack_table hstackCount hss rest)]
  rfl

/-- **A written change is read back** with its offset change. -/
theorem readsChange_changeBytes {c : Change} (hwf : c.WellFormed)
    (h : changeBytes delta c = .ok bs) : ReadsChange delta bs c := by
  cases c with
  | same => exact readsChange_same h
  | sameLocals stack => exact readsChange_sameLocals h
  | chop count => exact readsChange_chop hwf h
  | append locals => exact readsChange_append hwf h
  | full locals stack => exact readsChange_full h

end Change

/-- The distance that is written leads from the frame in front back to this one. The first frame
counts from zero, and all others from one behind the last offset. -/
theorem offsetAfter_of_delta? {previous : Option Nat} {offset delta : Nat}
    (h : delta? previous offset = some delta) : offsetAfter previous delta = offset := by
  unfold delta? at h
  cases previous with
  | none =>
    cases h
    rfl
  | some p =>
    simp only at h
    split at h
    · cases h
      show p + (offset - p - 1) + 1 = offset
      omega
    · cases h

end Frame

/-! ## Tables

Of a frame only the distance to the one in front is written. Reading goes along with the frames that
have been read, as writing does with the last offset. -/

/-- Frames behind one at `previous` are read back, if the last of those that have been read is at
the same offset. -/
theorem readOnto_bytesOnto {frames : List Frame} (hwf : ∀ f ∈ frames, f.change.WellFormed)
    {done : List Bytes} {previous : Option Nat} {out : Bytes}
    (h : bytesOnto done previous frames = .ok out) :
    ∃ bs, out = done.reverse.flatten ++ bs ∧ ∀ (front : List Frame) (rest : Bytes),
      front.head?.map (·.offset) = previous →
      readOnto frames.length front (bs ++ rest) = .ok (front.reverse ++ frames, rest) := by
  induction frames generalizing done previous with
  | nil =>
    cases h
    exact ⟨[], by simp, fun front rest _ => by simp [readOnto]⟩
  | cons frame frames ih =>
    unfold bytesOnto at h
    split at h
    · cases h
    · next delta hdelta =>
      split at h
      · cases h
      · next hsmall =>
        obtain ⟨bs, hbs, h⟩ := bind_eq_ok.1 h
        -- What is behind the frame is read back by induction, with this one as the last that has
        -- been read.
        obtain ⟨more, hout, hmore⟩ := ih (fun f hf => hwf f (List.mem_cons_of_mem _ hf)) h
        obtain ⟨kind, tail, rfl, hread⟩ :=
          Frame.readsChange_changeBytes (hwf frame (List.mem_cons_self ..)) hbs
        refine ⟨kind :: tail ++ more, by simp [hout], fun front rest hfront => ?_⟩
        have hlt : (UInt16.ofNat delta).toNat = delta :=
          UInt16.toNat_ofNat_of_lt' (show _ < 65536 by omega)
        have hhead : (do Frame.readChange (← Reader.byte).toNat : Reader (Nat × Change))
            (kind :: tail ++ more ++ rest) = .ok ((delta, frame.change), more ++ rest) := by
          rw [List.cons_append, List.cons_append, List.append_assoc]
          show Frame.readChange kind.toNat (tail ++ (more ++ rest)) = _
          rw [hread, hlt]
        rw [List.length_cons]
        unfold readOnto
        rw [hhead]
        simp only [hfront, Frame.offsetAfter_of_delta? hdelta]
        rw [hmore (frame :: front) rest rfl]
        simp

/-- **Written frames are read back.** Frames have to be in order for that, or nothing is written. -/
theorem parse_bytes {frames : List Frame} {info : Bytes}
    (hwf : ∀ f ∈ frames, f.change.WellFormed) (h : bytes frames = .ok info) :
    parse info = .ok frames := by
  obtain ⟨count, hcount, h⟩ := bind_eq_ok.1 h
  obtain ⟨out, hout, h⟩ := bind_eq_ok.1 h
  cases h
  obtain ⟨bs, hbs, hread⟩ := readOnto_bytesOnto hwf hout
  rw [List.reverse_nil, List.flatten_nil, List.nil_append] at hbs
  subst hbs
  -- The count in front of the frames is their number, so as many are read.
  obtain ⟨rfl, hlength⟩ := count16_eq_ok hcount
  have hframes := hread [] [] rfl
  rw [List.append_nil, List.reverse_nil, List.nil_append] at hframes
  have hrun : (do readOnto (← Reader.word16).toNat [] : Reader (List Frame))
      (Bytes.word16 (UInt16.ofNat frames.length) ++ out) = .ok (frames, []) := by
    rw [Reader.bind_run (Reader.word16_append _ _), hlength]
    exact hframes
  unfold parse Reader.all
  rw [hrun]
  rfl

/-! ## Offsets

A distance counts from one behind the last frame, so offsets always grow. -/

theorem lt_offsetAfter {p delta : Nat} : p < Frame.offsetAfter (some p) delta := by
  show p < p + delta + 1
  omega

/-- Frames are read in the order of their offsets. Each lies behind the last one that was read.
Distances are never negative, and count from the next offset. -/
theorem readOnto_sorted {n : Nat} {done frames : List Frame} {bs rest : Bytes}
    (hdone : (done.map (·.offset)).Pairwise (· > ·))
    (h : readOnto n done bs = .ok (frames, rest)) :
    (frames.map (·.offset)).Pairwise (· < ·) := by
  induction n generalizing done bs with
  | zero =>
    cases h
    rw [List.map_reverse, List.pairwise_reverse]
    exact hdone
  | succ n ih =>
    unfold readOnto at h
    split at h
    · cases h
    · refine ih ?_ h
      rw [List.map_cons, List.pairwise_cons]
      refine ⟨fun offset hoffset => ?_, hdone⟩
      cases done with
      | nil => cases hoffset
      | cons f done =>
        -- The frame before is the last one that was read, so its offset is the largest.
        have hle : offset ≤ f.offset := by
          rw [List.map_cons, List.pairwise_cons] at hdone
          rcases List.mem_cons.1 hoffset with rfl | hmem
          · exact Nat.le_refl _
          · exact Nat.le_of_lt (hdone.1 offset hmem)
        exact Nat.lt_of_le_of_lt hle lt_offsetAfter

/-- **The frames of a table are in the order of their offsets.** -/
theorem parse_sorted {info : Bytes} {frames : List Frame} (h : parse info = .ok frames) :
    (frames.map (·.offset)).Pairwise (· < ·) := by
  obtain ⟨⟨_, rest⟩, hrun, h⟩ := bind_eq_ok.1 h
  obtain ⟨_, _, hend⟩ := bind_eq_ok.1 h
  cases hend
  obtain ⟨count, mid, _, hread⟩ := Reader.bind_eq_ok.1 hrun
  exact readOnto_sorted .nil hread

end ClassLoom.StackMap
