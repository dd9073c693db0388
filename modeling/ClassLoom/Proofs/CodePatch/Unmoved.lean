import ClassLoom.Proofs.CodePatch.Lines
import ClassLoom.Proofs.StackMap.Moved

/-!
# Tables whose offsets stay

Moving a table reads it, moves its offsets and writes it anew. Where every offset in a table stays,
that gives the table itself: line numbers and local variables have one spelling only, and stack map
frames are written in the spelling that reading them again does not change.

* `moveLines_eq_self`, `moveRanges_eq_self`: tables of line numbers and of local variables;
* `respelled_of_moveAttribute`: a map of offsets that moves none leaves attributes as they are;
* `moveAttribute_again`: a payload that was moved stays if the places that it was moved to do.
-/

namespace ClassLoom

/-- A table is read from one spelling only if its items are. So what is written for the items read
is what they were read from. -/
theorem eq_flatMap_of_table {α : Type} {p : Reader α} {write : α → Bytes}
    (hp : ∀ bs a rest, p bs = .ok (a, rest) → bs = write a ++ rest) {info : Bytes} {items : List α}
    (h : Reader.all (Reader.table p) info = .ok items) :
    ∃ count, Bytes.count16 items.length = .ok count ∧ info = count ++ items.flatMap write := by
  obtain ⟨count, behind, hcount, hitems⟩ := Reader.bind_eq_ok.1 (Reader.all_eq_ok.1 h)
  refine ⟨Bytes.word16 count, ?_, ?_⟩
  · unfold Bytes.count16
    rw [Reader.length_of_times hitems, if_pos count.toNat_lt, UInt16.ofNat_toNat]
  · rw [Reader.word16_eq_ok.1 hcount, Reader.eq_flatMap_of_times hp hitems, List.append_nil]

/-- A table of line numbers is what is written for its entries. It is the same payload, byte for
byte. -/
theorem LineNumber.tableBytes_of_parseTable {info : Bytes} {entries : List LineNumber}
    (h : parseTable info = .ok entries) : tableBytes entries = .ok info := by
  have hread (bs : Bytes) (e : LineNumber) (rest : Bytes) (h : read bs = .ok (e, rest)) :
      bs = Bytes.word16 e.start ++ Bytes.word16 e.line ++ rest := by
    obtain ⟨start, mid, hstart, h⟩ := Reader.bind_eq_ok.1 h
    obtain ⟨line, mid', hline, hend⟩ := Reader.bind_eq_ok.1 h
    cases hend
    rw [Reader.word16_eq_ok.1 hstart, Reader.word16_eq_ok.1 hline, List.append_assoc]
  obtain ⟨count, hcount, rfl⟩ := eq_flatMap_of_table hread h
  unfold tableBytes
  rw [hcount]
  rfl

namespace CodePatch

variable {place place' : Nat → Except ClassError Nat} {info info' : Bytes}

/-! ## Single offsets

An offset that is its own place is written as it was. In this form the empty patch is a special
case: it gives every offset that it has a place for that offset. -/

theorem offset16_toNat (w : UInt16) : offset16 w.toNat = .ok w := by
  unfold offset16
  rw [if_pos w.toNat_lt, UInt16.ofNat_toNat]

theorem move16_eq_self {w : UInt16} (h : place w.toNat = .ok w.toNat) : move16 place w = .ok w := by
  unfold move16
  rw [h]
  exact offset16_toNat w

/-- A handler stays if its three offsets do. -/
theorem moveHandler_eq_self {h : ExceptionHandler}
    (hstart : place h.start.toNat = .ok h.start.toNat)
    (hstop : place h.stop.toNat = .ok h.stop.toNat)
    (htarget : place h.target.toNat = .ok h.target.toNat) : moveHandler place h = .ok h := by
  unfold moveHandler
  rw [move16_eq_self hstart, move16_eq_self hstop, move16_eq_self htarget]
  rfl

/-- A handler was moved only if its three offsets have places. -/
theorem places_of_moveHandler {h h' : ExceptionHandler} (hmove : moveHandler place h = .ok h') :
    place h.start.toNat = .ok h'.start.toNat ∧ place h.stop.toNat = .ok h'.stop.toNat
      ∧ place h.target.toNat = .ok h'.target.toNat := by
  obtain ⟨start, hstart, hmove⟩ := bind_eq_ok.1 hmove
  obtain ⟨stop, hstop, hmove⟩ := bind_eq_ok.1 hmove
  obtain ⟨target, htarget, hend⟩ := bind_eq_ok.1 hmove
  cases hend
  exact ⟨move16_eq_ok hstart, move16_eq_ok hstop, move16_eq_ok htarget⟩

/-! ## Tables

If no offset moves, a table is read and written again, and each is written in one way only. -/

/-- Line numbers that all stay. The payload is the same then. The payload was read to its end, so
writing the entries gives all of it. -/
theorem moveLines_eq_self {entries : List LineNumber} (h : LineNumber.parseTable info = .ok entries)
    (hplace : ∀ e ∈ entries, place e.start.toNat = .ok e.start.toNat) :
    moveLines place info = .ok info := by
  have hmoved : (entries.mapM fun e => do return { e with start := ← move16 place e.start })
      = .ok entries := mapM_eq_self fun e he => by
    show (do return LineNumber.mk (← move16 place e.start) e.line) = .ok e
    rw [move16_eq_self (hplace e he)]
    rfl
  unfold moveLines
  rw [h]
  show (entries.mapM _ >>= LineNumber.tableBytes) = _
  rw [hmoved]
  exact LineNumber.tableBytes_of_parseTable h

/-- An entry about a local variable whose range stays is read as its own bytes. Start and length are
moved as start and end, and the length is taken again from these. -/
theorem readsBack_moveRange {e : LocalRange} (hstart : place e.start.toNat = .ok e.start.toNat)
    (hstop : place e.stop = .ok e.stop) : ReadsBack (moveRange place) e.bytes e.bytes := by
  intro rest
  have hkept : Reader.bytes 6 (e.keptBytes ++ rest) = .ok (e.keptBytes, rest) :=
    Reader.bytes_append e.keptBytes rest
  have hextent : offset16 (e.start.toNat + e.length.toNat - e.start.toNat) = .ok e.length := by
    rw [Nat.add_sub_cancel_left, offset16_toNat]
  unfold LocalRange.stop at hstop
  unfold LocalRange.bytes
  rw [List.append_assoc, List.append_assoc]
  unfold moveRange
  rw [Reader.bind_run (Reader.word16_append _ _), Reader.bind_run (Reader.word16_append _ _),
    Reader.bind_run (Reader.lift_run hstart _), Reader.bind_run (Reader.lift_run hstop _),
    Reader.bind_run (Reader.lift_run (offset16_toNat _) _),
    Reader.bind_run (Reader.lift_run hextent _), Reader.bind_run hkept]
  rfl

/-- Local variables whose ranges all stay. The entries are moved while they are read. Their ends
stay, too. -/
theorem moveRanges_eq_self {entries : List LocalRange}
    (h : LocalRange.parseTable info = .ok entries)
    (hplace : ∀ e ∈ entries, place e.start.toNat = .ok e.start.toNat ∧ place e.stop = .ok e.stop) :
    moveRanges place info = .ok info := by
  obtain ⟨count, hcount, rfl⟩ := eq_flatMap_of_table (fun _ _ _ => LocalRange.read_eq_ok.1) h
  have hread : List.Forall₂ (ReadsBack (moveRange place)) (entries.map LocalRange.bytes)
      (entries.map LocalRange.bytes) := by
    rw [List.forall₂_map_left_iff, List.forall₂_map_right_iff, List.forall₂_same]
    exact fun e he => readsBack_moveRange (hplace e he).1 (hplace e he).2
  have hlength : (entries.map LocalRange.bytes).length = entries.length := List.length_map ..
  rw [← hlength] at hcount
  unfold moveRanges
  rw [List.flatMap_def, (ReadsBack.table hcount hread).all]
  show (Bytes.count16 _ >>= fun count => _) = _
  rw [hcount]
  rfl

/-! ## Payloads

An attribute of a body is moved as its name asks for: line numbers, ranges of variables and stack
map frames have offsets, all others have none. -/

/-- The payload of an attribute of a body, moved as its name asks for. -/
def moveInfo (place : Nat → Except ClassError Nat) (a : Attribute) : Except ClassError Bytes :=
  if a.name = LineNumber.tableName then moveLines place a.info
  else if isRangeTable a then moveRanges place a.info
  else if a.name = StackMap.tableName then StackMap.move place a.info
  else .ok a.info

/-- Moving an attribute moves its payload, and keeps its name. Most payloads are copied. What
becomes of the payload depends on the name alone. -/
theorem moveAttribute_eq_ok {a a' : Attribute} :
    moveAttribute place a = .ok a' ↔ a'.name = a.name ∧ moveInfo place a = .ok a'.info := by
  have hpayload {x : Except ClassError Bytes} :
      (do return { a with info := ← x } : Except ClassError Attribute) = .ok a'
        ↔ a'.name = a.name ∧ x = .ok a'.info := by
    rw [bind_eq_ok]
    constructor
    · rintro ⟨info, hinfo, hend⟩
      cases hend
      exact ⟨rfl, hinfo⟩
    · rintro ⟨hname, hinfo⟩
      exact ⟨a'.info, hinfo, by rw [← hname]; rfl⟩
  -- The kinds of tables are tested in one order on both sides.
  unfold moveAttribute moveInfo
  split
  · exact hpayload
  · rw [show (decide (a.name = LocalVariable.tableName)
      || decide (a.name = LocalVariable.typeTableName)) = isRangeTable a from rfl]
    split
    · exact hpayload
    · split
      · exact hpayload
      · exact hpayload (x := .ok a.info)

/-- Stack map frames are moved as such. -/
theorem moveInfo_of_stackMap {a : Attribute} (hname : a.name = StackMap.tableName) :
    moveInfo place a = StackMap.move place a.info := by
  have hlines : a.name ≠ LineNumber.tableName := by
    rw [hname]
    decide
  have hranges : ¬ isRangeTable a = true := by
    rw [isRangeTable, hname]
    decide
  unfold moveInfo
  rw [if_neg hlines, if_neg hranges, if_pos hname]

/-- Whether an attribute is the same as another one, but for how its stack map frames are spelled
if it holds any. -/
structure Respelled (a a' : Attribute) : Prop where
  name : a'.name = a.name
  info : a.name ≠ StackMap.tableName → a'.info = a.info
  frames : a.name = StackMap.tableName →
    ∃ frames, StackMap.parse a.info = .ok frames ∧ StackMap.parse a'.info = .ok frames

/-- **Attributes stay** where no offset moves. A stack map may be written in another form than it
was read in, so only its frames are the same. -/
theorem respelled_of_moveAttribute (hkeeps : ∀ pc offset, place pc = .ok offset → offset = pc)
    {a a' : Attribute} (h : moveAttribute place a = .ok a') : Respelled a a' := by
  have hstays {pc offset : Nat} (h : place pc = .ok offset) : place pc = .ok pc :=
    (hkeeps pc offset h).symm ▸ h
  obtain ⟨hname, h⟩ := moveAttribute_eq_ok.1 h
  refine ⟨hname, fun hother => ?_, fun hstack => ?_⟩
  · unfold moveInfo at h
    split at h
    -- Line numbers: each entry was moved, so its start has a place, which is itself.
    · obtain ⟨entries, _, hparse, _, hmoves⟩ := moveLines_eq_ok h
      have hsame : moveLines place a.info = .ok a.info := by
        refine moveLines_eq_self hparse fun e he => ?_
        obtain ⟨_, _, hmove⟩ := exists_of_mem_left hmoves he
        exact hstays hmove.start
      exact Except.ok.inj (h.symm.trans hsame)
    · split at h
      -- Ranges: the start and the end of each entry have places.
      · obtain ⟨entries, _, hparse, _, hmoves⟩ := moveRanges_eq_ok h
        have hsame : moveRanges place a.info = .ok a.info := by
          refine moveRanges_eq_self hparse fun e he => ?_
          obtain ⟨_, _, hmove⟩ := exists_of_mem_left hmoves he
          obtain ⟨_, hstop, _⟩ := hmove.stop
          exact ⟨hstays hmove.start, hstays hstop⟩
        exact Except.ok.inj (h.symm.trans hsame)
      · exact (Except.ok.inj h).symm
  -- Frames: they are the same, and so is whatever is written for them.
  · rw [moveInfo_of_stackMap hstack] at h
    obtain ⟨frames, hparse, hmove⟩ := bind_eq_ok.1 h
    obtain ⟨moved, hmoved, _⟩ := bind_eq_ok.1 hmove
    obtain ⟨f, _, hplace⟩ := StackMap.relocate_of_mapM_move hmoved
    have hsame := StackMap.move_eq_bytes hparse fun frame hframe =>
      ⟨hstays (hplace frame hframe).1, fun offset horigin =>
        hstays ((hplace frame hframe).2 offset horigin)⟩
    exact ⟨frames, hparse, StackMap.parse_bytes (StackMap.wellFormed_of_parse hparse)
      (hsame.symm.trans h)⟩

/-- Stack map frames that were moved stay if the places that they were moved to do. After the first
move they are in the form in which they are written. -/
theorem stackMap_move_again
    (hfixed : ∀ pc offset, place pc = .ok offset → place' offset = .ok offset)
    (h : StackMap.move place info = .ok info') : StackMap.move place' info' = .ok info' := by
  obtain ⟨frames, hparse, hmove⟩ := bind_eq_ok.1 h
  obtain ⟨moved, hmoved, hbytes⟩ := bind_eq_ok.1 hmove
  obtain ⟨f, rfl, hplace⟩ := StackMap.relocate_of_mapM_move hmoved
  have hparse' := StackMap.parse_bytes (List.forall_mem_map.2 fun frame hframe =>
    (StackMap.wellFormed_of_parse hparse frame hframe).relocate) hbytes
  refine (StackMap.move_eq_bytes hparse'
    (List.forall_mem_map.2 fun frame hframe => ?_)).trans hbytes
  refine ⟨hfixed _ _ (hplace frame hframe).1, ?_⟩
  show ∀ offset ∈ (frame.change.relocate f).origins, place' offset = .ok offset
  rw [StackMap.Change.origins_relocate]
  exact List.forall_mem_map.2 fun offset horigin =>
    hfixed _ _ ((hplace frame hframe).2 offset horigin)

/-- **A payload that was moved stays** if the places that it was moved to do. The first time it may
have been spelled anew, the second time it is not. -/
theorem moveAttribute_again
    (hfixed : ∀ pc offset, place pc = .ok offset → place' offset = .ok offset)
    (hmono : ∀ pc pc' offset offset', place pc = .ok offset → place pc' = .ok offset' → pc ≤ pc' →
      offset ≤ offset')
    {a a' : Attribute} (h : moveAttribute place a = .ok a') :
    moveAttribute place' a' = .ok a' := by
  obtain ⟨hname, h⟩ := moveAttribute_eq_ok.1 h
  refine moveAttribute_eq_ok.2 ⟨rfl, ?_⟩
  have hkind : isRangeTable a' = isRangeTable a := by
    unfold isRangeTable
    rw [hname]
  unfold moveInfo at h ⊢
  rw [hname, hkind]
  split at h
  · next hlines =>
    rw [if_pos hlines]
    obtain ⟨_, entries', _, hparse, hmoves⟩ := moveLines_eq_ok h
    refine moveLines_eq_self hparse fun e he => ?_
    obtain ⟨_, _, hmove⟩ := exists_of_mem_right hmoves he
    exact hfixed _ _ hmove.start
  · next hlines =>
    rw [if_neg hlines]
    split at h
    · next hranges =>
      rw [if_pos hranges]
      obtain ⟨_, entries', _, hparse, hmoves⟩ := moveRanges_eq_ok h
      refine moveRanges_eq_self hparse fun e' he => ?_
      obtain ⟨e, _, hmove⟩ := exists_of_mem_right hmoves he
      obtain ⟨newStop, hstop, hlength⟩ := hmove.stop
      -- The end is no earlier than the start, so their difference is the new length.
      have hle := hmono _ _ _ _ hmove.start hstop (Nat.le_add_right _ _)
      have hstop' : newStop = e'.stop := by
        unfold LocalRange.stop
        omega
      exact ⟨hfixed _ _ hmove.start, hstop' ▸ hfixed _ _ hstop⟩
    · next hranges =>
      rw [if_neg hranges]
      split at h
      · next hstack =>
        rw [if_pos hstack]
        exact stackMap_move_again hfixed h
      · next hother => rw [if_neg hother]

end CodePatch
end ClassLoom
