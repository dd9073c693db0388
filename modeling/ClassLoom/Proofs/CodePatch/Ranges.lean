import ClassLoom.Proofs.CodePatch.Body
import ClassLoom.Proofs.CodePatch.Pieces
import ClassLoom.Proofs.ReadsBack

/-!
# Ranges of patched bodies

Exception handlers and local variables hold for ranges of code. A patch moves only the two ends
of a range, and that is enough: the new range has what became of the instructions in the old
one, and what was put in front of an instruction is in it if that instruction is in it or ends
it, unless the range starts there.

* `moveRanges_eq_ok`: the entries of a table of local variables, before and after;
* `apply_moves_ranges`: all ranges of a patched body.
-/

namespace ClassLoom

/-! ## Entries of tables

The two tables of local variables, by descriptors and by signatures, have entries of the same five
words. A patch reads only the first two and passes the other three on as bytes. -/

/-- An entry in a table of local variables as it is written: for `length` bytes from `start` on,
`slot` holds a variable whose name and whose type have the given indices in the pool. -/
structure LocalRange where
  start : UInt16
  length : UInt16
  name : UInt16
  descriptor : UInt16
  slot : UInt16
  deriving DecidableEq

namespace LocalRange

/-- Reads an entry. -/
def read : Reader LocalRange := do
  let start ← Reader.word16
  let length ← Reader.word16
  let name ← Reader.word16
  let descriptor ← Reader.word16
  let slot ← Reader.word16
  return { start, length, name, descriptor, slot }

/-- The entries in a payload. -/
def parseTable (info : Bytes) : Except ClassError (List LocalRange) :=
  Reader.all (Reader.table read) info

/-- The words of an entry that no patch changes. -/
def keptBytes (e : LocalRange) : Bytes :=
  Bytes.word16 e.name ++ Bytes.word16 e.descriptor ++ Bytes.word16 e.slot

/-- The written form of an entry. -/
def bytes (e : LocalRange) : Bytes :=
  Bytes.word16 e.start ++ Bytes.word16 e.length ++ e.keptBytes

/-- The first offset that an entry is about no more. -/
def stop (e : LocalRange) : Nat := e.start.toNat + e.length.toNat

/-- An entry is read back from what is written for it. -/
theorem readsBack (e : LocalRange) : ReadsBack read e.bytes e := by
  intro rest
  unfold bytes keptBytes
  simp only [List.append_assoc]
  unfold read
  rw [Reader.bind_run (Reader.word16_append _ _), Reader.bind_run (Reader.word16_append _ _),
    Reader.bind_run (Reader.word16_append _ _), Reader.bind_run (Reader.word16_append _ _),
    Reader.bind_run (Reader.word16_append _ _)]
  rfl

/-- An entry is what its five words say, and those are read from nothing else. No other ten bytes
are read as the same entry. -/
theorem read_eq_ok {bs rest : Bytes} {e : LocalRange} :
    read bs = .ok (e, rest) ↔ bs = e.bytes ++ rest := by
  constructor
  · intro h
    obtain ⟨start, _, hstart, h⟩ := Reader.bind_eq_ok.1 h
    obtain ⟨length, _, hlength, h⟩ := Reader.bind_eq_ok.1 h
    obtain ⟨name, _, hname, h⟩ := Reader.bind_eq_ok.1 h
    obtain ⟨descriptor, _, hdescriptor, h⟩ := Reader.bind_eq_ok.1 h
    obtain ⟨slot, _, hslot, hend⟩ := Reader.bind_eq_ok.1 h
    cases hend
    rw [Reader.word16_eq_ok] at hstart hlength hname hdescriptor hslot
    rw [hstart, hlength, hname, hdescriptor, hslot]
    simp only [bytes, keptBytes, List.append_assoc]
  · rintro rfl
    exact readsBack e rest

/-- Six bytes are three words: whatever a patch passes on unread can be told as a name, a type and a
slot. -/
theorem exists_keptBytes {kept : Bytes} (h : kept.length = 6) (start length : UInt16) :
    ∃ e : LocalRange, e.start = start ∧ e.length = length ∧ e.keptBytes = kept := by
  match kept, h with
  | [a, b, c, d, e, f], _ =>
    have hword (x y : UInt8) : Bytes.word16 (Bytes.toWord16 x y) = [x, y] := by
      have hread : Reader.word16 [x, y] = .ok (Bytes.toWord16 x y, []) := rfl
      have h := Reader.word16_eq_ok.1 hread
      rw [List.append_nil] at h
      exact h.symm
    refine ⟨⟨start, length, Bytes.toWord16 a b, Bytes.toWord16 c d, Bytes.toWord16 e f⟩,
      rfl, rfl, ?_⟩
    simp only [keptBytes, hword]
    rfl

end LocalRange

namespace CodePatch

/-! ## Moved entries

A range is written as a start and a length. It is moved by its two ends, and the length is taken
again from where these come to be. -/

section Entries

variable {place : Nat → Except ClassError Nat} {bs rest part : Bytes}

/-- An offset fits a word only as itself. -/
theorem offset16_eq_ok {pc : Nat} {w : UInt16} (h : offset16 pc = .ok w) : w.toNat = pc := by
  unfold offset16 at h
  split at h
  · next hlt =>
    cases h
    exact UInt16.toNat_ofNat_of_lt' hlt
  · cases h

/-- A moved offset is where the layout has the old one, and fits a word. -/
theorem move16_eq_ok {w w' : UInt16} (h : move16 place w = .ok w') :
    place w.toNat = .ok w'.toNat := by
  obtain ⟨offset, hoffset, h⟩ := bind_eq_ok.1 h
  rw [hoffset, offset16_eq_ok h]

/-- How an entry is moved: both ends of its range are, and all else stays. -/
structure MovesEntry (place : Nat → Except ClassError Nat) (e e' : LocalRange) : Prop where
  start : place e.start.toNat = .ok e'.start.toNat
  stop : ∃ newStop, place e.stop = .ok newStop ∧ e'.length.toNat = newStop - e'.start.toNat
  name : e'.name = e.name
  descriptor : e'.descriptor = e.descriptor
  slot : e'.slot = e.slot

/-- Moving an entry moves its ends and copies the rest. What is read is one entry, and so is what is
written. -/
theorem moveRange_eq_ok (h : moveRange place bs = .ok (part, rest)) :
    ∃ e e', bs = e.bytes ++ rest ∧ part = e'.bytes ∧ MovesEntry place e e' := by
  obtain ⟨start, _, hstart, h⟩ := Reader.bind_eq_ok.1 h
  obtain ⟨length, _, hlength, h⟩ := Reader.bind_eq_ok.1 h
  obtain ⟨newStart, _, hstartLift, h⟩ := Reader.bind_eq_ok.1 h
  obtain ⟨newStop, _, hstopLift, h⟩ := Reader.bind_eq_ok.1 h
  obtain ⟨start', _, hoffsetLift, h⟩ := Reader.bind_eq_ok.1 h
  obtain ⟨length', _, hextentLift, h⟩ := Reader.bind_eq_ok.1 h
  obtain ⟨kept, _, hkept, hend⟩ := Reader.bind_eq_ok.1 h
  obtain ⟨hnewStart, rfl⟩ := Reader.lift_eq_ok.1 hstartLift
  obtain ⟨hnewStop, rfl⟩ := Reader.lift_eq_ok.1 hstopLift
  obtain ⟨hoffset, rfl⟩ := Reader.lift_eq_ok.1 hoffsetLift
  obtain ⟨hextent, rfl⟩ := Reader.lift_eq_ok.1 hextentLift
  cases hend
  -- What has been read is told by the bytes it takes: two words that are moved, and six bytes that
  -- are not.
  rw [Reader.word16_eq_ok] at hstart hlength
  obtain ⟨hkept, hsix⟩ := Reader.bytes_eq_ok.1 hkept
  obtain ⟨e, rfl, rfl, rfl⟩ := LocalRange.exists_keptBytes hsix start length
  have hoffset := offset16_eq_ok hoffset
  refine ⟨e, { e with start := start', length := length' }, ?_, rfl, ?_, ?_, rfl, rfl, rfl⟩
  · rw [hstart, hlength, hkept]
    simp only [LocalRange.bytes, List.append_assoc]
  · rw [hnewStart, hoffset]
  · exact ⟨newStop, hnewStop, by rw [offset16_eq_ok hextent, hoffset]⟩

/-- Entries are moved one by one, in order. How many there are is not changed. The first entry that
cannot be moved makes the whole table fail. -/
theorem times_moveRange {n : Nat} {parts : List Bytes}
    (h : Reader.times n (moveRange place) bs = .ok (parts, rest)) :
    ∃ entries entries', Reader.times n LocalRange.read bs = .ok (entries, rest)
      ∧ parts = entries'.map LocalRange.bytes
      ∧ List.Forall₂ (MovesEntry place) entries entries' := by
  induction n generalizing bs parts with
  | zero =>
    cases h
    exact ⟨[], [], rfl, rfl, .nil⟩
  | succ n ih =>
    obtain ⟨part, mid, more, hpart, hmore, rfl⟩ := Reader.times_succ_eq_ok.1 h
    obtain ⟨e, e', hread, rfl, hmoves⟩ := moveRange_eq_ok hpart
    obtain ⟨entries, entries', hentries, rfl, hall⟩ := ih hmore
    have hread := LocalRange.read_eq_ok.2 hread
    refine ⟨e :: entries, e' :: entries', ?_, rfl, .cons hmoves hall⟩
    exact Reader.times_succ_eq_ok.2 ⟨e, mid, entries, hread, hentries, rfl⟩

/-- **Moving a table of local variables** moves its entries, one by one and in order. The count in
front is written anew, and is the same. -/
theorem moveRanges_eq_ok {info info' : Bytes} (h : moveRanges place info = .ok info') :
    ∃ entries entries', LocalRange.parseTable info = .ok entries
      ∧ LocalRange.parseTable info' = .ok entries'
      ∧ List.Forall₂ (MovesEntry place) entries entries' := by
  obtain ⟨parts, hparts, h⟩ := bind_eq_ok.1 h
  obtain ⟨count, hcount, hend⟩ := bind_eq_ok.1 h
  cases hend
  obtain ⟨n, mid, hn, hparts⟩ := Reader.bind_eq_ok.1 (Reader.all_eq_ok.1 hparts)
  obtain ⟨entries, entries', hentries, rfl, hmoves⟩ := times_moveRange hparts
  refine ⟨entries, entries', ?_, ?_, hmoves⟩
  · exact Reader.all_eq_ok.2 (Reader.bind_eq_ok.2 ⟨n, mid, hn, hentries⟩)
  · rw [List.length_map] at hcount
    have hread : List.Forall₂ (ReadsBack LocalRange.read) (entries'.map LocalRange.bytes)
        entries' := by
      rw [List.forall₂_map_left_iff, List.forall₂_same]
      exact fun e _ => e.readsBack
    exact (ReadsBack.table hcount hread).all

/-- Moving an attribute keeps its name. Only payloads are moved, and of most attributes not even
these. -/
theorem name_of_moveAttribute {a a' : Attribute} (h : moveAttribute place a = .ok a') :
    a'.name = a.name := by
  unfold moveAttribute at h
  repeat' split at h
  · obtain ⟨info, _, hend⟩ := bind_eq_ok.1 h
    cases hend
    rfl
  · obtain ⟨info, _, hend⟩ := bind_eq_ok.1 h
    cases hend
    rfl
  · obtain ⟨info, _, hend⟩ := bind_eq_ok.1 h
    cases hend
    rfl
  · cases h
    rfl

/-- Whether an attribute is a table of local variables, with types or with signatures. -/
def isRangeTable (a : Attribute) : Bool :=
  a.name = LocalVariable.tableName || a.name = LocalVariable.typeTableName

/-- Tables of local variables are not among the attributes that a patch drops. -/
theorem not_isDropped_of_isRangeTable {a : Attribute} (h : isRangeTable a = true) :
    isDropped a = false := by
  rw [isRangeTable, Bool.or_eq_true, decide_eq_true_eq, decide_eq_true_eq] at h
  unfold isDropped
  rcases h with h | h <;> rw [h] <;> decide

/-- Of a table of local variables, the payload is moved. Both kinds are moved in the same way. -/
theorem moveRanges_of_moveAttribute {a a' : Attribute} (htable : isRangeTable a = true)
    (h : moveAttribute place a = .ok a') :
    a'.name = a.name ∧ moveRanges place a.info = .ok a'.info := by
  have hlines : a.name ≠ LineNumber.tableName := by
    intro hname
    rw [isRangeTable, hname] at htable
    exact absurd htable (by decide)
  unfold moveAttribute at h
  rw [if_neg hlines] at h
  obtain ⟨info, hinfo, hend⟩ := bind_eq_ok.1 ((if_pos htable).symm.trans h)
  cases hend
  exact ⟨rfl, hinfo⟩

/-- The attributes of one kind before and after. A kind is told by the name, which moving an
attribute keeps, so that leaving out the other kinds before or after is the same. -/
theorem forall₂_filter_of_moves {attributes moved : List Attribute} (kind : Attribute → Bool)
    (hkind : ∀ a a' : Attribute, a'.name = a.name → kind a' = kind a)
    (hkept : ∀ a, kind a = true → isDropped a = false)
    (h : (attributes.filter fun a => !isDropped a).mapM (moveAttribute place) = .ok moved) :
    List.Forall₂ (fun a a' => kind a = true ∧ moveAttribute place a = .ok a')
      (attributes.filter kind) (moved.filter kind) := by
  have hfilter : (attributes.filter fun a => !isDropped a).filter kind
      = attributes.filter kind := by
    rw [List.filter_filter]
    refine List.filter_congr fun a _ => ?_
    cases ha : kind a with
    | false => rfl
    | true => rw [hkept a ha, Bool.not_false, Bool.and_true]
  -- Moving relates the attributes that are not dropped, and related ones are of a kind together.
  have hrelated := List.rel_filter (p := kind) (q := kind)
    (fun a a' hmove => iff_of_eq (congrArg (· = true)
      (hkind a a' (name_of_moveAttribute hmove)).symm)) (mapM_eq_ok.1 h)
  rw [hfilter] at hrelated
  exact (List.forall₂_and_left _ _).2 ⟨fun a ha => (List.mem_filter.1 ha).2, hrelated⟩

end Entries

/-! ## Moved ranges

What it is for a range to be about the same instructions is said by the pieces of the layout, each
of which stands for one old instruction with all that was put in front of it. -/

/-- How a range of an old body is moved to one of a patched body, whose instructions are
`pieces`. -/
structure MovesRange (place : Nat → Except ClassError Nat) (pieces : List Piece)
    (start stop start' stop' : Nat) : Prop where
  start_eq : place start = .ok start'
  stop_eq : place stop = .ok stop'
  /-- It ends no earlier than it starts if it did not before. -/
  ordered : start ≤ stop → start' ≤ stop'
  /-- It has exactly the instructions that come from the old one. -/
  covers : ∀ p ∈ pieces, start' ≤ p.start ∧ p.start < stop' ↔ p.origin.Within start stop

/-- How an exception handler is moved: with its range goes the place that control goes to. -/
structure MovesHandler (patch : CodePatch) (body : List (Nat × Instruction))
    (place : Nat → Except ClassError Nat) (pieces : List Piece) (h h' : ExceptionHandler) :
    Prop where
  range : MovesRange place pieces h.start.toNat h.stop.toNat h'.start.toNat h'.stop.toNat
  target : place h.target.toNat = .ok h'.target.toNat
  /-- Control goes to the first instruction of what the old one became. -/
  relocated : ∀ i, (h.target.toNat, i) ∈ body → patch.successorsAt h.target.toNat i ≠ [] →
    ∃ p, pieces.find? (·.origin = .successor h.target.toNat) = some p
      ∧ p.start = h'.target.toNat
  catchType : h'.catchType = h.catchType

/-- How an entry about a local variable is moved. -/
structure MovesVariable (place : Nat → Except ClassError Nat) (pieces : List Piece)
    (e e' : LocalRange) : Prop where
  range : MovesRange place pieces e.start.toNat e.stop e'.start.toNat e'.stop
  name : e'.name = e.name
  descriptor : e'.descriptor = e.descriptor
  slot : e'.slot = e.slot

/-- How a table of local variables is moved: entry by entry, in order. -/
structure MovesTable (place : Nat → Except ClassError Nat) (pieces : List Piece)
    (a a' : Attribute) : Prop where
  name : a'.name = a.name
  entries : ∃ entries entries', LocalRange.parseTable a.info = .ok entries
    ∧ LocalRange.parseTable a'.info = .ok entries'
    ∧ List.Forall₂ (MovesVariable place pieces) entries entries'

section Moves

variable {patch : CodePatch} {body : List (Nat × Instruction)} {size : Nat}
  {place : Nat → Except ClassError Nat} {bytecode : Bytes} {pieces : List Piece}

theorem LaysOut.movesRange (h : patch.LaysOut body size place bytecode pieces)
    {start stop start' stop' : Nat} (hstart : place start = .ok start')
    (hstop : place stop = .ok stop') : MovesRange place pieces start stop start' stop' :=
  ⟨hstart, hstop, h.le_of_le hstart hstop, fun _ hp => h.covers_iff hstart hstop hp⟩

/-- Moving the three offsets of a handler moves it: its type is not touched. The end of its range
moves like the start of an instruction, or to the end of the code. -/
theorem LaysOut.movesHandler (h : patch.LaysOut body size place bytecode pieces)
    {old new : ExceptionHandler} (hmove : moveHandler place old = .ok new) :
    MovesHandler patch body place pieces old new := by
  obtain ⟨start, hstart, hmove⟩ := bind_eq_ok.1 hmove
  obtain ⟨stop, hstop, hmove⟩ := bind_eq_ok.1 hmove
  obtain ⟨target, htarget, hend⟩ := bind_eq_ok.1 hmove
  cases hend
  have htarget := move16_eq_ok htarget
  refine ⟨h.movesRange (move16_eq_ok hstart) (move16_eq_ok hstop), htarget, ?_, rfl⟩
  intro i hi hne
  obtain ⟨p, hp, hplace⟩ := h.firsts _ i hi hne
  exact ⟨p, hp, Except.ok.inj (hplace.symm.trans htarget)⟩

/-- Moving both ends of an entry moves what it says of a local variable. -/
theorem LaysOut.movesVariable (h : patch.LaysOut body size place bytecode pieces)
    {e e' : LocalRange} (hmove : MovesEntry place e e') : MovesVariable place pieces e e' := by
  obtain ⟨newStop, hstop, hlength⟩ := hmove.stop
  have hle : e'.start.toNat ≤ newStop :=
    h.le_of_le hmove.start hstop (Nat.le_add_right _ _)
  -- The subtraction does not cut off anything.
  have hnewStop : newStop = e'.stop := by
    unfold LocalRange.stop
    omega
  rw [hnewStop] at hstop
  exact ⟨h.movesRange hmove.start hstop, hmove.name, hmove.descriptor, hmove.slot⟩

/-- Moving the payload of a table moves the table. -/
theorem LaysOut.movesTable (h : patch.LaysOut body size place bytecode pieces) {a a' : Attribute}
    (htable : isRangeTable a = true) (hmove : moveAttribute place a = .ok a') :
    MovesTable place pieces a a' := by
  obtain ⟨hname, hinfo⟩ := moveRanges_of_moveAttribute htable hmove
  obtain ⟨entries, entries', hentries, hentries', hmoves⟩ := moveRanges_eq_ok hinfo
  exact ⟨hname, entries, entries', hentries, hentries',
    hmoves.imp fun _ _ hentry => h.movesVariable hentry⟩

end Moves

/-! ## Patching

The condition on the patch is the one without which a piece may be empty, and two ends with a piece
between them fall together. -/

/-- The layout of a patched body, and how its tables were moved to it. -/
theorem exists_laysOut {patch : CodePatch} {code patched : Code} (hpatch : patch.TakesRoom)
    (h : patch.apply code = .ok patched) :
    ∃ body place pieces, Instruction.decode code.bytecode = .ok body
      ∧ patch.LaysOut body code.bytecode.length place patched.bytecode pieces
      ∧ code.handlers.mapM (moveHandler place) = .ok patched.handlers
      ∧ (code.attributes.filter fun a => !isDropped a).mapM (moveAttribute place)
        = .ok patched.attributes := by
  obtain ⟨body, relaxed, hdecode, hrelax, hbytes, _, _, hhandlers, hattributes⟩ := apply_eq_ok h
  obtain ⟨pieces, hlays⟩ := laysOut_of_bytes hpatch hdecode hrelax hbytes
  exact ⟨body, relaxed.layout.place, pieces, hdecode, hlays, hhandlers, hattributes⟩

/-- **The ranges of a patched body.** If a patch that puts in nothing but what takes up room
succeeds, the new code is laid out in pieces, and every exception handler and every entry of the
tables of local variables is moved with the pieces of its range, in order. -/
theorem apply_moves_ranges {patch : CodePatch} {code patched : Code} (hpatch : patch.TakesRoom)
    (h : patch.apply code = .ok patched) :
    ∃ body place pieces, Instruction.decode code.bytecode = .ok body
      ∧ patch.LaysOut body code.bytecode.length place patched.bytecode pieces
      ∧ List.Forall₂ (MovesHandler patch body place pieces) code.handlers patched.handlers
      ∧ List.Forall₂ (MovesTable place pieces) (code.attributes.filter isRangeTable)
        (patched.attributes.filter isRangeTable) := by
  obtain ⟨body, place, pieces, hdecode, hlays, hhandlers, hattributes⟩ := exists_laysOut hpatch h
  refine ⟨body, place, pieces, hdecode, hlays, ?_, ?_⟩
  · exact (mapM_eq_ok.1 hhandlers).imp fun _ _ hmove => hlays.movesHandler hmove
  · have htables := forall₂_filter_of_moves isRangeTable
      (fun a a' hname => by rw [isRangeTable, isRangeTable, hname])
      (fun _ => not_isDropped_of_isRangeTable) hattributes
    exact htables.imp fun _ _ ⟨htable, hmove⟩ => hlays.movesTable htable hmove

/-- A variable and a handler around an instruction that another one is put in front of. Both grow by
what is put in, as it stands between their ends. -/
theorem apply_moves_ranges_around :
    let patch := (CodePatch.empty.insertBefore 1 [.op 0x00]).replace 2 [.op 0x00, .op 0xb1]
    let code : Code :=
      { maxStack := 1, maxLocals := 1, bytecode := [0x03, 0x57, 0xb1], handlers := [⟨0, 1, 2, 0⟩],
        attributes := [⟨"LocalVariableTable", [0, 1, 0, 1, 0, 2, 0, 7, 0, 8, 0, 0]⟩] }
    let patched : Code :=
      { maxStack := 1, maxLocals := 1, bytecode := [0x03, 0x00, 0x57, 0x00, 0xb1],
        handlers := [⟨0, 2, 3, 0⟩],
        attributes := [⟨"LocalVariableTable", [0, 1, 0, 2, 0, 3, 0, 7, 0, 8, 0, 0]⟩] }
    patch.TakesRoom ∧ patch.apply code = .ok patched
      ∧ ∃ body place pieces, Instruction.decode code.bytecode = .ok body
        ∧ patch.LaysOut body code.bytecode.length place patched.bytecode pieces
        ∧ List.Forall₂ (MovesHandler patch body place pieces) code.handlers patched.handlers
        ∧ List.Forall₂ (MovesTable place pieces) (code.attributes.filter isRangeTable)
          (patched.attributes.filter isRangeTable) :=
  ⟨by decide +kernel, by decide +kernel, apply_moves_ranges (by decide +kernel) (by decide +kernel)⟩

end CodePatch
end ClassLoom
