import ClassLoom.Proofs.StackMap.Forms

/-!
# Stack map tables with their offsets moved

A table names offsets in two places: each frame has one, written as a change from the frame
before, and a type of a frame may be that of an object made at an offset. Moving a table
re-counts the changes and leaves everything else alone, so the frames of the moved table are the
old ones, each offset in them at its new place.

* `Frame.relocate`: a frame with all its offsets at their new places;
* `Relocation`: what a map of offsets must give for the moved table to be writable;
* `bytes_and_move_of_parse`: what writing and moving do to a table that can be read;
* `relocate_of_mapM_move`, `move_eq_bytes`: frames that were moved, and frames that stay.
-/

namespace ClassLoom.StackMap

/-! ## Frames at their new places

Offsets occur in frames in two ways: where the frame stands, and where objects were made that still
wait for their constructors. Moving fails if one of them has no new place. Where none fails, moving
is a map of the frames (`relocate`), which is easier to reason about. -/

section Relocate

variable (f : Nat → Nat)

/-- Where the object of an entry was made, if it has no constructor call yet. -/
def Entry.origin? : Entry → Option Nat
  | uninitialized offset => some offset
  | _ => none

/-- An entry with its offset at its new place. -/
def Entry.relocate : Entry → Entry
  | uninitialized offset => uninitialized (f offset)
  | entry => entry

/-- The entries that a change names. -/
def Change.entries : Change → List Entry
  | sameLocals stack => [stack]
  | append locals => locals
  | full locals stack => locals ++ stack
  | _ => []

/-- Where the objects without a constructor call in a change were made. -/
def Change.origins (c : Change) : List Nat := c.entries.filterMap Entry.origin?

theorem Change.origins_full (locals stack : List Entry) : (full locals stack).origins
    = locals.filterMap Entry.origin? ++ stack.filterMap Entry.origin? :=
  List.filterMap_append

/-- A change with the offsets in it at their new places. -/
def Change.relocate : Change → Change
  | sameLocals stack => sameLocals (stack.relocate f)
  | append locals => append (locals.map (Entry.relocate f))
  | full locals stack => full (locals.map (Entry.relocate f)) (stack.map (Entry.relocate f))
  | change => change

/-- A frame with its offset and the offsets in it at their new places. -/
def Frame.relocate (frame : Frame) : Frame where
  offset := f frame.offset
  change := frame.change.relocate f

end Relocate

section Relocate

variable {place : Nat → Except ClassError Nat} {f : Nat → Nat}

/-- An entry moves where its offset has a new place. Most entries have none. -/
theorem Entry.move_eq_relocate {e : Entry}
    (h : ∀ offset ∈ e.origin?, place offset = .ok (f offset)) :
    e.move place = .ok (e.relocate f) := by
  cases e with
  | uninitialized offset =>
    show (do return uninitialized (← place offset)) = _
    rw [h offset rfl]
    rfl
  | _ => rfl

/-- Several entries move where each does. -/
theorem Entry.mapM_move (entries : List Entry)
    (h : ∀ offset ∈ entries.filterMap Entry.origin?, place offset = .ok (f offset)) :
    entries.mapM (Entry.move place) = .ok (entries.map (Entry.relocate f)) :=
  mapM_ok fun entry hentry => entry.move_eq_relocate fun offset horigin =>
    h offset (List.mem_filterMap.2 ⟨entry, hentry, horigin⟩)

/-- A change moves where all its entries do. Entries without an offset stay as they are. -/
theorem Frame.moveChange_eq_relocate {c : Change}
    (h : ∀ offset ∈ c.origins, place offset = .ok (f offset)) :
    moveChange place c = .ok (c.relocate f) := by
  -- A change moves its entries one after the other; those that are listed in it are all there are.
  cases c with
  | same => rfl
  | chop count => rfl
  | sameLocals stack =>
    have hstack := Entry.mapM_move [stack] h
    rw [mapM_eq_ok, List.map_singleton, List.forall₂_cons] at hstack
    show (do return Change.sameLocals (← stack.move place)) = _
    rw [hstack.1]
    rfl
  | append locals =>
    show (do return Change.append (← locals.mapM (Entry.move place))) = _
    rw [Entry.mapM_move locals h]
    rfl
  | full locals stack =>
    rw [Change.origins_full, List.forall_mem_append] at h
    show (do
      let locals ← locals.mapM (Entry.move place)
      let stack ← stack.mapM (Entry.move place)
      return Change.full locals stack) = _
    rw [Entry.mapM_move locals h.1, Entry.mapM_move stack h.2]
    rfl

/-- A frame moves where all its offsets have a new place. -/
theorem Frame.move_eq_relocate {frame : Frame} (hoffset : place frame.offset = .ok (f frame.offset))
    (horigins : ∀ offset ∈ frame.change.origins, place offset = .ok (f offset)) :
    frame.move place = .ok (frame.relocate f) := by
  unfold Frame.move
  rw [hoffset, Frame.moveChange_eq_relocate horigins]
  rfl

/-- Moving changes no counts, so that a well-formed change stays so. -/
theorem Change.WellFormed.relocate {c : Change} (h : c.WellFormed) : (c.relocate f).WellFormed := by
  cases c with
  | append locals =>
    show 1 ≤ (locals.map _).length ∧ (locals.map _).length ≤ 3
    rwa [List.length_map]
  | _ => exact h

/-- One that fits its counts does so when it has been moved. -/
theorem Change.HasRoom.relocate {c : Change} (h : c.HasRoom) : (c.relocate f).HasRoom := by
  cases c with
  | full locals stack =>
    show (locals.map _).length < 65536 ∧ (stack.map _).length < 65536
    rwa [List.length_map, List.length_map]
  | _ => exact h

/-- The offsets of moved entries are the moved offsets. -/
theorem Entry.filterMap_origin?_relocate (entries : List Entry) :
    (entries.map (Entry.relocate f)).filterMap Entry.origin?
      = (entries.filterMap Entry.origin?).map f := by
  rw [List.filterMap_map, List.map_filterMap]
  refine List.filterMap_congr fun entry _ => ?_
  cases entry <;> rfl

theorem Change.origins_relocate (c : Change) : (c.relocate f).origins = c.origins.map f := by
  unfold Change.origins
  rw [← Entry.filterMap_origin?_relocate]
  cases c <;> simp [Change.entries, Change.relocate]

end Relocate

/-! ## Frames that can be written

Frames are written by the differences of their offsets. So they can be written if the offsets rise
and no difference is too large for a word, and if all counts are words. -/

/-- An entry can be written if its offset is a word. -/
theorem Entry.exists_bytes {e : Entry} (h : ∀ offset ∈ e.origin?, offset < 65536) :
    ∃ bs, e.bytes = .ok bs := by
  cases e with
  | uninitialized offset => exact ⟨_, if_pos (h offset rfl)⟩
  | _ => exact ⟨_, rfl⟩

/-- Several can be written if all their offsets are words. -/
theorem Entry.exists_bytesOfAll (entries : List Entry)
    (h : ∀ offset ∈ entries.filterMap Entry.origin?, offset < 65536) :
    ∃ bs, Entry.bytesOfAll entries = .ok bs := by
  obtain ⟨parts, hparts⟩ := exists_mapM_ok fun entry hentry => exists_bytes (e := entry)
    fun offset horigin => h offset (List.mem_filterMap.2 ⟨entry, hentry, horigin⟩)
  exact ⟨parts.flatten, bind_eq_ok.2 ⟨parts, hparts, rfl⟩⟩

/-- A change can be written if its counts and its offsets are words. Only offsets of new objects and
the two counts of a full frame are at stake. -/
theorem Frame.exists_changeBytes (delta : UInt16) {c : Change} (hroom : c.HasRoom)
    (horigins : ∀ offset ∈ c.origins, offset < 65536) : ∃ bs, changeBytes delta c = .ok bs := by
  -- Offsets fit into two bytes, so only the counts of a full frame ask for more.
  cases c with
  | same =>
    simp only [changeBytes]
    split <;> exact ⟨_, rfl⟩
  | chop count => exact ⟨_, rfl⟩
  | sameLocals stack =>
    obtain ⟨bs, hbs⟩ := stack.exists_bytes fun offset horigin =>
      horigins offset (List.mem_filterMap.2 ⟨stack, List.mem_singleton.2 rfl, horigin⟩)
    simp only [changeBytes, hbs]
    split <;> exact ⟨_, rfl⟩
  | append locals =>
    obtain ⟨bs, hbs⟩ := Entry.exists_bytesOfAll locals horigins
    simp only [changeBytes, hbs]
    exact ⟨_, rfl⟩
  | full locals stack =>
    rw [Change.origins_full, List.forall_mem_append] at horigins
    obtain ⟨ls, hls⟩ := Entry.exists_bytesOfAll locals horigins.1
    obtain ⟨ss, hss⟩ := Entry.exists_bytesOfAll stack horigins.2
    simp only [changeBytes, hls, hss, Bytes.count16, if_pos hroom.1, if_pos hroom.2]
    exact ⟨_, rfl⟩

/-- Whether a frame can stand behind another one in a table: its offset is larger, and the change
between them is a word. -/
def Frame.Follows (before frame : Frame) : Prop :=
  before.offset < frame.offset ∧ frame.offset - before.offset - 1 ≤ 65535

/-- Frames can be written behind a frame at `previous` if each can stand behind the one before. This
is what the induction is on: the offset before is all that it has to know. -/
theorem exists_bytesOnto {frames : List Frame} (hroom : ∀ frame ∈ frames, frame.change.HasRoom)
    (horigins : ∀ frame ∈ frames, ∀ offset ∈ frame.change.origins, offset < 65536)
    {previous : Option Nat} (hhead : ∀ frame ∈ frames.head?,
      ∃ delta ≤ 65535, Frame.delta? previous frame.offset = some delta)
    (hgaps : frames.IsChain Frame.Follows) (done : List Bytes) :
    ∃ bs, bytesOnto done previous frames = .ok bs := by
  induction frames generalizing previous done with
  | nil => exact ⟨_, rfl⟩
  | cons frame frames ih =>
    obtain ⟨delta, hdelta, hgap⟩ := hhead frame rfl
    obtain ⟨bs, hbs⟩ := Frame.exists_changeBytes (UInt16.ofNat delta)
      (hroom frame (List.mem_cons_self ..)) (horigins frame (List.mem_cons_self ..))
    unfold bytesOnto
    simp only [hgap, if_neg (Nat.not_lt.2 hdelta), hbs]
    refine ih (fun f hf => hroom f (List.mem_cons_of_mem _ hf))
      (fun f hf => horigins f (List.mem_cons_of_mem _ hf)) (fun next hnext => ?_)
      (List.isChain_of_isChain_cons hgaps) _
    obtain ⟨tail, rfl⟩ := List.head?_eq_some_iff.1 hnext
    obtain ⟨hlt, hword⟩ := (List.isChain_cons_cons.1 hgaps).1
    exact ⟨_, hword, if_pos hlt⟩

/-- Frames can be written if the first offset is a word and each other frame can stand behind
the one before. -/
theorem exists_bytes (frames : List Frame) (hmany : frames.length < 65536)
    (hroom : ∀ frame ∈ frames, frame.change.HasRoom)
    (horigins : ∀ frame ∈ frames, ∀ offset ∈ frame.change.origins, offset < 65536)
    (hfirst : ∀ frame ∈ frames.head?, frame.offset ≤ 65535)
    (hgaps : frames.IsChain Frame.Follows) : ∃ out, bytes frames = .ok out := by
  have hhead : ∀ frame ∈ frames.head?, ∃ delta ≤ 65535,
      Frame.delta? none frame.offset = some delta :=
    fun frame hframe => ⟨_, hfirst frame hframe, rfl⟩
  obtain ⟨bs, hbs⟩ := exists_bytesOnto hroom horigins hhead hgaps []
  unfold bytes Bytes.count16
  rw [if_pos hmany, hbs]
  exact ⟨_, rfl⟩

/-! ## Moved tables

A relocation keeps the order of offsets and fits into words. Moving a table by one moves what the
table says, and nothing else. -/

/-- What a map of offsets must give for the frames to have a table at their new places: a new place
for every offset, with the frames in the same order, and words to write them in. -/
structure Relocation (place : Nat → Except ClassError Nat) (f : Nat → Nat) (frames : List Frame) :
    Prop where
  offsets : ∀ frame ∈ frames, place frame.offset = .ok (f frame.offset)
  origins : ∀ frame ∈ frames, ∀ offset ∈ frame.change.origins, place offset = .ok (f offset)
  increasing : ∀ a ∈ frames, ∀ b ∈ frames, a.offset < b.offset → f a.offset < f b.offset
  first : ∀ frame ∈ frames.head?, f frame.offset ≤ 65535
  gaps : frames.IsChain fun before frame => f frame.offset - f before.offset - 1 ≤ 65535
  words : ∀ frame ∈ frames, ∀ offset ∈ frame.change.origins, f offset ≤ 65535

section Moved

variable {info : Bytes} {frames : List Frame}

/-- The frames of a payload have a table at their new places. All that writing asks for is what a
relocation gives: rising offsets, with differences and origins that are words. -/
theorem move_of_parse {place : Nat → Except ClassError Nat} {f : Nat → Nat}
    (h : parse info = .ok frames) (hplace : Relocation place f frames) :
    ∃ out, move place info = .ok out ∧ parse out = .ok (frames.map (Frame.relocate f)) := by
  obtain ⟨count, bs, shapes, -, hcount, hrow⟩ := row_of_parse h
  have hmoved : frames.mapM (Frame.move place) = .ok (frames.map (Frame.relocate f)) :=
    mapM_ok fun frame hframe =>
      Frame.move_eq_relocate (hplace.offsets frame hframe) (hplace.origins frame hframe)
  -- Two frames that are neighbours stay neighbours, in the same order.
  have hgaps : (frames.map (Frame.relocate f)).IsChain Frame.Follows := by
    have hsorted := List.pairwise_iff_getElem.1 (List.pairwise_map.1 (parse_sorted h))
    rw [List.isChain_iff_getElem]
    intro i hi
    rw [List.length_map] at hi
    rw [List.getElem_map, List.getElem_map]
    exact ⟨hplace.increasing _ (List.getElem_mem _) _ (List.getElem_mem _)
      (hsorted i (i + 1) _ hi (Nat.lt_succ_self i)), hplace.gaps.getElem i hi⟩
  -- So the moved frames can be written, and what is written is read back.
  obtain ⟨out, hout⟩ := exists_bytes (frames.map (Frame.relocate f))
    (by rw [List.length_map, hcount]; exact count.toNat_lt)
    (List.forall_mem_map.2 fun frame hframe => (hrow.fits frame hframe).2.relocate)
    (List.forall_mem_map.2 fun frame hframe => by
      show ∀ offset ∈ (frame.change.relocate f).origins, offset < 65536
      rw [Change.origins_relocate]
      exact List.forall_mem_map.2 fun offset horigin =>
        Nat.lt_succ_of_le (hplace.words frame hframe offset horigin))
    (fun frame hframe => by
      rw [List.head?_map] at hframe
      obtain ⟨head, hhead, rfl⟩ := Option.map_eq_some_iff.1 hframe
      exact hplace.first head hhead) hgaps
  refine ⟨out, ?_, parse_bytes (List.forall_mem_map.2 fun frame hframe =>
    (hrow.fits frame hframe).1.relocate) hout⟩
  unfold move
  rw [h]
  show (frames.mapM (Frame.move place) >>= bytes) = .ok out
  rw [hmoved]
  exact hout

/-- **What can be read can be written, and moved.** What is written for the frames of a payload is
read as the same frames, is at most as long as the payload, and is the payload itself unless a form
in it was loose. Under a map of offsets that leaves the frames in their order and within reach of
each other, the moved payload holds the same frames with all offsets at their new places. -/
theorem bytes_and_move_of_parse (h : parse info = .ok frames) :
    (∃ out shapes, bytes frames = .ok out ∧ forms info = .ok shapes ∧ out.length ≤ info.length
      ∧ parse out = .ok frames ∧ (out = info ↔ ∀ form ∈ shapes, ¬ form.IsLoose))
    ∧ ∀ place f, Relocation place f frames →
      ∃ out, move place info = .ok out ∧ parse out = .ok (frames.map (Frame.relocate f)) := by
  refine ⟨?_, fun place f hplace => move_of_parse h hplace⟩
  obtain ⟨out, shapes, hout, hshapes, hlength, hsame⟩ := bytes_of_parse h
  have hparse := parse_bytes (wellFormed_of_parse h) hout
  exact ⟨out, shapes, hout, hshapes, hlength, hparse, hsame⟩

/-- An extended form at an offset change of 5, then a value made at 3, all moved by 100. -/
theorem bytes_and_move_of_loose :
    (∃ out shapes, bytes [⟨5, .same⟩, ⟨8, .sameLocals (.uninitialized 3)⟩] = .ok out
      ∧ forms [0, 2, 251, 0, 5, 66, 8, 0, 3] = .ok shapes ∧ out.length ≤ 9
      ∧ parse out = .ok [⟨5, .same⟩, ⟨8, .sameLocals (.uninitialized 3)⟩]
      ∧ (out = [0, 2, 251, 0, 5, 66, 8, 0, 3] ↔ ∀ form ∈ shapes, ¬ form.IsLoose))
    ∧ ∃ out, move (fun offset => .ok (offset + 100)) [0, 2, 251, 0, 5, 66, 8, 0, 3] = .ok out
      ∧ parse out = .ok [⟨105, .same⟩, ⟨108, .sameLocals (.uninitialized 103)⟩] := by
  have h : parse [0, 2, 251, 0, 5, 66, 8, 0, 3]
    = .ok [⟨5, .same⟩, ⟨8, .sameLocals (.uninitialized 3)⟩] := rfl
  refine ⟨(bytes_and_move_of_parse h).1, (bytes_and_move_of_parse h).2 _ (· + 100) ?_⟩
  exact {
    offsets := fun _ _ => rfl
    origins := fun _ _ _ _ => rfl
    increasing := fun _ _ _ _ hlt => Nat.add_lt_add_right hlt 100
    first := by decide
    gaps := by decide
    words := by decide }

end Moved

/-! ## Tables that were moved

Conversely, a table that was moved had a new place for each of its offsets. -/

section Places

variable {place : Nat → Except ClassError Nat}

/-- An entry was moved only if its offset has a place. -/
theorem Entry.place_of_move {e e' : Entry} (h : e.move place = .ok e') :
    ∀ offset ∈ e.origin?, ∃ offset', place offset = .ok offset' := by
  intro offset horigin
  cases e with
  | uninitialized offset' =>
    cases horigin
    obtain ⟨moved, hmoved, _⟩ := bind_eq_ok.1 h
    exact ⟨moved, hmoved⟩
  | _ => cases horigin

/-- Entries were moved only if all their offsets have places. -/
theorem Entry.place_of_mapM_move {entries moved : List Entry}
    (h : entries.mapM (Entry.move place) = .ok moved) :
    ∀ offset ∈ entries.filterMap Entry.origin?, ∃ offset', place offset = .ok offset' := by
  intro offset hoffset
  obtain ⟨entry, hentry, horigin⟩ := List.mem_filterMap.1 hoffset
  obtain ⟨_, hmove⟩ := exists_ok_of_mapM h entry hentry
  exact place_of_move hmove offset horigin

/-- A change was moved only if all offsets in it have places. Each of them was asked for, in
order. -/
theorem Frame.place_of_moveChange {c c' : Change} (h : moveChange place c = .ok c') :
    ∀ offset ∈ c.origins, ∃ offset', place offset = .ok offset' := by
  cases c with
  | same => exact fun _ horigin => nomatch horigin
  | chop count => exact fun _ horigin => nomatch horigin
  -- A single entry is a list of one.
  | sameLocals stack =>
    obtain ⟨moved, hmoved, _⟩ := bind_eq_ok.1 h
    have hentries : [stack].mapM (Entry.move place) = .ok [moved] := by
      rw [mapM_eq_ok]
      exact .cons hmoved .nil
    exact Entry.place_of_mapM_move hentries
  | append locals =>
    obtain ⟨moved, hmoved, _⟩ := bind_eq_ok.1 h
    exact Entry.place_of_mapM_move hmoved
  | full locals stack =>
    obtain ⟨ls, hls, h⟩ := bind_eq_ok.1 h
    obtain ⟨ss, hss, _⟩ := bind_eq_ok.1 h
    rw [Change.origins_full, List.forall_mem_append]
    exact ⟨Entry.place_of_mapM_move hls, Entry.place_of_mapM_move hss⟩

/-- Frames that were moved are the old ones at their new places. A place that is asked for twice is
the same one, so there is one map for all of them. -/
theorem relocate_of_mapM_move {frames moved : List Frame}
    (h : frames.mapM (Frame.move place) = .ok moved) :
    ∃ f : Nat → Nat, moved = frames.map (Frame.relocate f)
      ∧ ∀ frame ∈ frames, place frame.offset = .ok (f frame.offset)
        ∧ ∀ offset ∈ frame.change.origins, place offset = .ok (f offset) := by
  -- Where there is no place any value will do, since no offset of the table is one of these.
  obtain ⟨f, hf⟩ : ∃ f : Nat → Nat, ∀ offset offset', place offset = .ok offset' →
      place offset = .ok (f offset) :=
    ⟨fun offset => (place offset).toOption.getD 0,
      fun _ _ h => by simp only [h, Except.toOption, Option.getD_some]⟩
  have hframes : ∀ frame ∈ frames, place frame.offset = .ok (f frame.offset)
      ∧ ∀ offset ∈ frame.change.origins, place offset = .ok (f offset) := by
    intro frame hframe
    obtain ⟨_, hmove⟩ := exists_ok_of_mapM h frame hframe
    obtain ⟨_, hoffset, hmove⟩ := bind_eq_ok.1 hmove
    obtain ⟨_, hchange, _⟩ := bind_eq_ok.1 hmove
    refine ⟨hf _ _ hoffset, fun offset horigin => ?_⟩
    obtain ⟨_, horigin⟩ := Frame.place_of_moveChange hchange offset horigin
    exact hf _ _ horigin
  refine ⟨f, ?_, hframes⟩
  have hmoved := mapM_ok fun frame hframe =>
    Frame.move_eq_relocate (hframes frame hframe).1 (hframes frame hframe).2
  exact Except.ok.inj (h.symm.trans hmoved)

theorem Entry.relocate_id (e : Entry) : e.relocate id = e := by
  cases e <;> rfl

/-- A change whose offsets all stay is the same one. -/
theorem Change.relocate_id (c : Change) : c.relocate id = c := by
  have hall (entries : List Entry) : entries.map (Entry.relocate id) = entries :=
    (List.map_congr_left fun e _ => e.relocate_id).trans (List.map_id entries)
  cases c with
  | sameLocals stack => exact congrArg sameLocals stack.relocate_id
  | append locals => exact congrArg append (hall locals)
  | full locals stack => exact congrArg₂ full (hall locals) (hall stack)
  | _ => rfl

theorem Frame.relocate_id (frame : Frame) : frame.relocate id = frame :=
  congrArg (Frame.mk frame.offset) frame.change.relocate_id

/-- A table whose offsets all stay is only written anew. Writing gives the payload back if it was in
the shortest forms. -/
theorem move_eq_bytes {info : Bytes} {frames : List Frame} (h : parse info = .ok frames)
    (hplace : ∀ frame ∈ frames, place frame.offset = .ok frame.offset
      ∧ ∀ offset ∈ frame.change.origins, place offset = .ok offset) :
    move place info = bytes frames := by
  have hmoved : frames.mapM (Frame.move place) = .ok frames := mapM_eq_self fun frame hframe => by
    rw [Frame.move_eq_relocate (f := id) (hplace frame hframe).1 (hplace frame hframe).2,
      frame.relocate_id]
  unfold move
  rw [h]
  show (frames.mapM (Frame.move place) >>= bytes) = bytes frames
  rw [hmoved]
  rfl

end Places

end ClassLoom.StackMap
