import ClassLoom.Proofs.CodePatch.Expansion
import ClassLoom.Proofs.Listing.Decoded

/-!
# Patched bodies, piece by piece

Every instruction of a patched body is a `Piece` of its bytes and has an `Origin`: it was put in
front of an old instruction, or it is an old instruction or one of those that took its place.
The pieces stand in a row, in the order of the old body. An old offset cuts the row in two, and
its new offset is where the cut is: everything that was put in front of the old instruction is
before the cut, and everything that the old instruction became is behind it.

Instructions of no bytes would stand on both sides of a cut at once, so the patch must put in
none (`CodePatch.TakesRoom`). Instructions that are no well-formed ones do no harm.

* `laysOut_of_bytes`: a relaxed listing that was written is laid out in pieces;
* `LaysOut.start_lt_iff`: on which side of an old offset a piece is;
* `LaysOut.covers_iff`: which pieces are between two old offsets;
* `LaysOut.le_of_le`: new offsets are in the order of the old ones.
-/

namespace ClassLoom

/-! ## Pieces

A patched body has instructions of three kinds: those that stayed, those that took the place of
others, and those that were put in. Each comes from an old offset, and where it stands in the new
body is told by that. -/

/-- Where an instruction of a patched body comes from. -/
inductive Origin where
  /-- It was put in front of the instruction at `pc`. -/
  | inserted (pc : Nat)
  /-- It is the instruction at `pc`, or one of those that took its place. -/
  | successor (pc : Nat)
  deriving DecidableEq

namespace Origin

/-- Whether what comes from there is before the new place of `pc`. What was put in front of the
instruction at `pc` is. -/
def Precedes (pc : Nat) : Origin → Prop
  | inserted b => b ≤ pc
  | successor b => b < pc

/-- Whether what comes from there is in the range of the old offsets from `start` to `stop`,
which is not in it itself. -/
def Within (start stop : Nat) : Origin → Prop
  | inserted b => start < b ∧ b ≤ stop
  | successor b => start ≤ b ∧ b < stop

/-- What precedes an offset precedes all higher ones. -/
theorem Precedes.of_le {pc pc' : Nat} {origin : Origin} (h : origin.Precedes pc) (hle : pc ≤ pc') :
    origin.Precedes pc' := by
  cases origin with
  | inserted b => exact Nat.le_trans h hle
  | successor b => exact Nat.lt_of_lt_of_le h hle

/-- A range is what precedes its end and not its start. -/
theorem within_iff {start stop : Nat} {origin : Origin} :
    origin.Within start stop ↔ ¬origin.Precedes start ∧ origin.Precedes stop := by
  cases origin with
  | inserted b => exact and_congr_left' Nat.not_le.symm
  | successor b => exact and_congr_left' Nat.not_lt.symm

end Origin

/-- An instruction of a patched body, with the bytes that were written for it at `start`. -/
structure Piece where
  origin : Origin
  instruction : Instruction
  start : Nat
  bytes : Bytes

namespace Piece

/-- An instruction with where it comes from. -/
def source (p : Piece) : Origin × Instruction := (p.origin, p.instruction)

/-- What pieces take up together. -/
def extent (pieces : List Piece) : Nat := (pieces.flatMap Piece.bytes).length

@[simp] theorem extent_nil : extent [] = 0 := rfl

@[simp] theorem extent_cons (p : Piece) (pieces : List Piece) :
    extent (p :: pieces) = p.bytes.length + extent pieces := by
  unfold extent
  rw [List.flatMap_cons, List.length_append]

@[simp] theorem extent_append (front back : List Piece) :
    extent (front ++ back) = extent front + extent back := by
  unfold extent
  rw [List.flatMap_append, List.length_append]

end Piece

/-! ## Listings in pieces

Written lines are cut into pieces, one for each instruction, with the bytes of each. Labels have no
bytes, so they lie between pieces. -/

namespace Listing

/-- The pieces of lines that are written from an offset on; labels have none. -/
inductive Spans (place : Nat → Except ClassError Nat) : Nat → Listing → List Piece → Prop where
  | nil (pos : Nat) : Spans place pos [] []
  | label {pos : Nat} {rest : Listing} {pieces : List Piece} (pc : Nat)
    (hrest : Spans place pos rest pieces) : Spans place pos (.label pc :: rest) pieces
  | code {pos : Nat} {i : Instruction} {wide : Bool} {bs : Bytes} {rest : Listing}
    {pieces : List Piece} (origin : Origin) (hbytes : i.bytes place pos wide = .ok bs)
    (hrest : Spans place (pos + i.size pos wide) rest pieces) :
    Spans place pos (.code i wide :: rest)
      ({ origin, instruction := i, start := pos, bytes := bs } :: pieces)

variable {place : Nat → Except ClassError Nat} {pos : Nat} {listing : Listing}
  {pieces : List Piece}

/-- Lines that are written have pieces, with any origins. Origins are only carried along. -/
theorem exists_spans {done : List Bytes} {out : Bytes}
    (h : bytesOnto place done pos listing = .ok out) {sources : List (Origin × Instruction)}
    (hsources : sources.map (·.2) = listing.instructions) :
    ∃ pieces, Spans place pos listing pieces ∧ pieces.map Piece.source = sources
      ∧ out = done.reverse.flatten ++ pieces.flatMap Piece.bytes := by
  induction listing generalizing done pos sources with
  | nil =>
    cases h
    obtain rfl := List.map_eq_nil_iff.1 hsources
    exact ⟨[], .nil pos, rfl, by simp⟩
  | cons line rest ih =>
    -- A label has no piece, and an instruction has one.
    cases line with
    | label pc =>
      obtain ⟨pieces, hspans, hpieces, hout⟩ := ih h hsources
      exact ⟨pieces, .label pc hspans, hpieces, hout⟩
    | code i wide =>
      obtain ⟨bs, hbytes, h⟩ := bind_eq_ok.1 h
      obtain ⟨⟨origin, j⟩, sources, rfl, hj, hrest⟩ := List.map_eq_cons_iff.1 hsources
      cases hj
      obtain ⟨pieces, hspans, rfl, hout⟩ := ih h hrest
      exact ⟨_ :: pieces, .code origin hbytes hspans, rfl, by simp [hout]⟩

/-- The pieces of lines have their instructions, in order. -/
theorem Spans.instructions (h : Spans place pos listing pieces) :
    pieces.map Piece.instruction = listing.instructions := by
  induction h with
  | nil => rfl
  | label _ _ ih => exact ih
  | @code _ i _ _ _ _ _ _ _ ih => exact congrArg (i :: ·) ih

/-- Pieces take up what the layout reserves. -/
theorem Spans.stop (h : Spans place pos listing pieces) :
    Listing.stop pos listing = pos + Piece.extent pieces := by
  induction h with
  | nil => rfl
  | label _ _ ih => exact ih
  | code _ hbytes _ ih =>
    rw [stop_cons, Piece.extent_cons, Instruction.length_bytes hbytes, ← Nat.add_assoc]
    exact ih

/-- Every piece starts behind those in front of it. Between two pieces there is nothing but
labels. -/
theorem Spans.start (h : Spans place pos listing pieces) {front : List Piece} {p : Piece}
    {back : List Piece} (hpieces : pieces = front ++ p :: back) :
    p.start = pos + Piece.extent front := by
  induction h generalizing front with
  | nil => exact absurd hpieces.symm (by simp)
  | label _ _ ih => exact ih hpieces
  | code _ hbytes _ ih =>
    rcases List.cons_eq_append_iff.1 hpieces with ⟨rfl, hhead⟩ | ⟨front, rfl, hpieces⟩
    · cases hhead
      rfl
    · rw [Piece.extent_cons, Instruction.length_bytes hbytes, ← Nat.add_assoc]
      exact ih (List.cons.inj hpieces).2

/-- Each piece has the written form of its instruction, in the place where it stands. -/
theorem Spans.written (h : Spans place pos listing pieces) :
    ∀ p ∈ pieces, ∃ wide, p.instruction.bytes place p.start wide = .ok p.bytes := by
  induction h with
  | nil => exact List.forall_mem_nil _
  | label _ _ ih => exact ih
  | @code _ _ wide _ _ _ _ hbytes _ ih => exact List.forall_mem_cons.2 ⟨⟨wide, hbytes⟩, ih⟩

/-- Pieces of lines in two parts are in two parts. The second part begins where the first one
stops. -/
theorem Spans.split {front back : Listing} (h : Spans place pos (front ++ back) pieces) :
    ∃ pieces₁ pieces₂, pieces = pieces₁ ++ pieces₂ ∧ Spans place pos front pieces₁
      ∧ Spans place (Listing.stop pos front) back pieces₂ := by
  induction front generalizing pos pieces with
  | nil => exact ⟨[], pieces, rfl, .nil pos, h⟩
  | cons line front ih =>
    cases h with
    | label pc hrest =>
      obtain ⟨pieces₁, pieces₂, rfl, hfront, hback⟩ := ih hrest
      exact ⟨pieces₁, pieces₂, rfl, .label pc hfront, hback⟩
    | code origin hbytes hrest =>
      obtain ⟨pieces₁, pieces₂, rfl, hfront, hback⟩ := ih hrest
      exact ⟨_ :: pieces₁, pieces₂, rfl, .code origin hbytes hfront, hback⟩

end Listing

/-! ## Sources

What a patch makes of a body, instruction by instruction, with the origin of each. The order of
origins is that of the body, and what is put in front of an instruction comes before what became of
it. -/

/-- Whether all instructions of an edit take up room. -/
def Edit.TakesRoom (edit : Edit) : Prop :=
  (∀ i ∈ edit.before, i.TakesRoom) ∧ ∀ is ∈ edit.replacement, ∀ i ∈ is, i.TakesRoom

instance : DecidablePred Edit.TakesRoom := fun edit => inferInstanceAs (Decidable
  ((∀ i ∈ edit.before, i.TakesRoom) ∧ ∀ is ∈ edit.replacement, ∀ i ∈ is, i.TakesRoom))

namespace CodePatch

/-- Whether all instructions that a patch puts in take up room. -/
def TakesRoom (patch : CodePatch) : Prop := ∀ e ∈ patch.edits.toList, e.2.TakesRoom

instance : DecidablePred TakesRoom := fun patch =>
  inferInstanceAs (Decidable (∀ e ∈ patch.edits.toList, e.2.TakesRoom))

section Sources

variable (patch : CodePatch)

/-- What the new body has for an instruction, and where it comes from. -/
def sourcesAt (e : Nat × Instruction) : List (Origin × Instruction) :=
  (patch.insertedAt e.1).map (Origin.inserted e.1, ·)
    ++ (patch.successorsAt e.1 e.2).map (Origin.successor e.1, ·)

/-- What the new body has, and where it comes from. -/
def sources (body : List (Nat × Instruction)) : List (Origin × Instruction) :=
  body.flatMap patch.sourcesAt

theorem map_snd_sourcesAt (e : Nat × Instruction) :
    (patch.sourcesAt e).map (·.2) = patch.expansionAt e := by
  simp [sourcesAt, expansionAt, Function.comp_def]

theorem map_snd_sources (body : List (Nat × Instruction)) :
    (patch.sources body).map (·.2) = body.flatMap patch.expansionAt := by
  unfold sources
  rw [List.map_flatMap]
  exact List.flatMap_congr fun e _ => patch.map_snd_sourcesAt e

/-- What becomes of an instruction comes from its offset. -/
theorem origin_of_mem_sourcesAt {patch : CodePatch} {e : Nat × Instruction}
    {source : Origin × Instruction} (h : source ∈ patch.sourcesAt e) :
    source.1 = .inserted e.1 ∨ source.1 = .successor e.1 := by
  rcases List.mem_append.1 h with h | h
  · obtain ⟨i, _, rfl⟩ := List.mem_map.1 h
    exact .inl rfl
  · obtain ⟨i, _, rfl⟩ := List.mem_map.1 h
    exact .inr rfl

/-- What comes from lower offsets, or was put in front of `pc`, precedes `pc`. What is put in front
of an instruction counts as in front of its offset. -/
theorem precedes_of_mem_sources {patch : CodePatch} {front : List (Nat × Instruction)} {pc : Nat}
    (hfront : ∀ e ∈ front, e.1 < pc) {source : Origin × Instruction}
    (h : source ∈ patch.sources front ++ (patch.insertedAt pc).map (Origin.inserted pc, ·)) :
    source.1.Precedes pc := by
  rcases List.mem_append.1 h with h | h
  · obtain ⟨e, he, h⟩ := List.mem_flatMap.1 h
    rcases origin_of_mem_sourcesAt h with horigin | horigin
    · rw [horigin]
      exact Nat.le_of_lt (hfront e he)
    · rw [horigin]
      exact hfront e he
  · obtain ⟨i, _, rfl⟩ := List.mem_map.1 h
    exact Nat.le_refl pc

/-- What became of the instruction at `pc`, or comes from higher offsets, does not. The offset
itself belongs to what the instruction became. -/
theorem not_precedes_of_mem_sources {patch : CodePatch} {back : List (Nat × Instruction)}
    {pc : Nat} (hback : ∀ e ∈ back, pc < e.1) {successors : List Instruction}
    {source : Origin × Instruction}
    (h : source ∈ successors.map (Origin.successor pc, ·) ++ patch.sources back) :
    ¬source.1.Precedes pc := by
  rcases List.mem_append.1 h with h | h
  · obtain ⟨i, _, rfl⟩ := List.mem_map.1 h
    exact Nat.lt_irrefl pc
  · obtain ⟨e, he, h⟩ := List.mem_flatMap.1 h
    rcases origin_of_mem_sourcesAt h with horigin | horigin
    · rw [horigin]
      exact Nat.not_le.2 (hback e he)
    · rw [horigin]
      exact Nat.lt_asymm (hback e he)

/-- An edit is one of those that a patch holds, or an empty one. -/
theorem editAt_cases (pc : Nat) :
    (pc, patch.editAt pc) ∈ patch.edits.toList ∨ patch.editAt pc = {} := by
  unfold editAt
  cases h : patch.edits[pc]? with
  | none => exact .inr rfl
  | some edit => exact .inl (Std.TreeMap.mem_toList_iff_getElem?_eq_some.2 h)

/-- In a patch that puts in nothing but what takes up room, everything does. An instruction without
bytes would have the offset of the next one. -/
theorem takesRoom_of_mem_sources {patch : CodePatch} {body : List (Nat × Instruction)}
    (hpatch : patch.TakesRoom) (hbody : ∀ e ∈ body, e.2.TakesRoom)
    {source : Origin × Instruction} (h : source ∈ patch.sources body) : source.2.TakesRoom := by
  obtain ⟨e, he, h⟩ := List.mem_flatMap.1 h
  have hedit : (patch.editAt e.1).TakesRoom := by
    rcases patch.editAt_cases e.1 with hmem | hempty
    · exact hpatch _ hmem
    · rw [hempty]
      exact ⟨List.forall_mem_nil _, fun _ hnone => nomatch hnone⟩
  -- A piece comes from what is in front of an instruction, or from what has taken its place.
  rcases List.mem_append.1 h with h | h
  · obtain ⟨i, hi, rfl⟩ := List.mem_map.1 h
    exact hedit.1 i hi
  · obtain ⟨i, hi, rfl⟩ := List.mem_map.1 h
    unfold successorsAt at hi
    cases hreplacement : (patch.editAt e.1).replacement with
    | none =>
      rw [hreplacement, Option.getD_none, List.mem_singleton] at hi
      rw [hi]
      exact hbody e he
    | some is =>
      rw [hreplacement] at hi
      exact hedit.2 is hreplacement i hi

end Sources

/-! ## Layouts

A layout in pieces is all that the tables of a body have to know about a patch: where old offsets
are, and which pieces lie between them. -/

/-- Pieces cut in two at the new place of `pc`. -/
structure CutAt (pieces : List Piece) (pc : Nat) (front back : List Piece) : Prop where
  eq : pieces = front ++ back
  front : ∀ p ∈ front, p.origin.Precedes pc
  back : ∀ p ∈ back, ¬p.origin.Precedes pc

/-- How a patched body is laid out: `pieces` are its instructions, and `place` tells where in it
the offsets of an old body of `size` bytes are. -/
structure LaysOut (patch : CodePatch) (body : List (Nat × Instruction)) (size : Nat)
    (place : Nat → Except ClassError Nat) (bytecode : Bytes) (pieces : List Piece) : Prop where
  /-- The new instructions, in the order of the old body. -/
  sources : pieces.map Piece.source = patch.sources body
  /-- The new code consists of them. -/
  bytecode : bytecode = pieces.flatMap Piece.bytes
  /-- Every one starts where those in front of it end. -/
  starts : ∀ front p back, pieces = front ++ p :: back → p.start = Piece.extent front
  /-- Every one is in its written form, with its targets at their new places. -/
  written : ∀ p ∈ pieces, ∃ wide, p.instruction.bytes place p.start wide = .ok p.bytes
  filled : ∀ p ∈ pieces, p.bytes ≠ []
  /-- The offsets of old instructions and the end of the old body have new places. -/
  labels : ∀ pc offset, place pc = .ok offset → pc ∈ body.map (·.1) ++ [size]
  /-- They are where the pieces are cut. -/
  places : ∀ pc ∈ body.map (·.1) ++ [size], ∃ front back, CutAt pieces pc front back
    ∧ place pc = .ok (Piece.extent front)
  /-- An old instruction that became something is where the first piece of that is. -/
  firsts : ∀ pc i, (pc, i) ∈ body → patch.successorsAt pc i ≠ [] →
    ∃ p, pieces.find? (·.origin = .successor pc) = some p ∧ place pc = .ok p.start

/-! ## Cuts

The label of an old offset cuts the listing in two, and so it cuts the pieces. Those in front come
from lower offsets, or were put in at the offset. -/

section Relaxed

variable {patch : CodePatch} {size : Nat} {body : List (Nat × Instruction)} {relaxed : Listing}
  {pieces : List Piece}

/-- The pieces on both sides of an old instruction's label, in a relaxed listing. The label is where
the cut is. -/
theorem exists_split_pieces (hrelaxed : (patch.listing size body).Widened relaxed)
    (hlabels : (body.map (·.1) ++ [size]).Pairwise (· < ·))
    (hspans : relaxed.Spans relaxed.layout.place 0 pieces)
    (hsources : pieces.map Piece.source = patch.sources body)
    {front back : List (Nat × Instruction)} {pc : Nat} {i : Instruction}
    (hbody : body = front ++ (pc, i) :: back) :
    ∃ pieces₁ pieces₂, pieces = pieces₁ ++ pieces₂
      ∧ relaxed.layout.place pc = .ok (Piece.extent pieces₁)
      ∧ pieces₁.map Piece.source
        = patch.sources front ++ (patch.insertedAt pc).map (Origin.inserted pc, ·)
      ∧ pieces₂.map Piece.source
        = (patch.successorsAt pc i).map (Origin.successor pc, ·) ++ patch.sources back := by
  obtain ⟨before, successors, behind, rfl, hpc, hbefore, _, _⟩ :=
    split_relaxed hrelaxed hlabels hbody
  have hplace :
      (before ++ .label pc :: (successors ++ behind) : Listing).layout.place pc
        = .ok (Listing.stop 0 before) := Listing.place_of_split hpc
  obtain ⟨pieces₁, pieces₂, rfl, hspans₁, _⟩ := hspans.split
  have hextent : Listing.stop 0 before = Piece.extent pieces₁ := by
    rw [hspans₁.stop, Nat.zero_add]
  rw [hextent] at hplace
  -- The lines in front of the label are as many as the sources in front of it.
  have hcut : patch.sources body
      = (patch.sources front ++ (patch.insertedAt pc).map (Origin.inserted pc, ·))
        ++ ((patch.successorsAt pc i).map (Origin.successor pc, ·) ++ patch.sources back) := by
    subst hbody
    unfold sources
    rw [List.flatMap_append, List.flatMap_cons]
    simp only [sourcesAt, List.append_assoc]
  have hlength : (pieces₁.map Piece.source).length
      = (patch.sources front ++ (patch.insertedAt pc).map (Origin.inserted pc, ·)).length := by
    have h := congrArg List.length (hspans₁.instructions.trans hbefore)
    rw [← map_snd_sources] at h
    simpa using h
  rw [hcut, List.map_append] at hsources
  obtain ⟨hpieces₁, hpieces₂⟩ := List.append_inj hsources hlength
  exact ⟨pieces₁, pieces₂, rfl, hplace, hpieces₁, hpieces₂⟩

/-- Every old instruction cuts the pieces at its new place, in front of what it became. The label
stands behind what was put in front of the instruction. -/
theorem exists_cutAt (hrelaxed : (patch.listing size body).Widened relaxed)
    (hlabels : (body.map (·.1) ++ [size]).Pairwise (· < ·))
    (hspans : relaxed.Spans relaxed.layout.place 0 pieces)
    (hsources : pieces.map Piece.source = patch.sources body) {pc : Nat} {i : Instruction}
    (he : (pc, i) ∈ body) :
    ∃ front back later, CutAt pieces pc front back
      ∧ relaxed.layout.place pc = .ok (Piece.extent front)
      ∧ back.map Piece.source
        = (patch.successorsAt pc i).map (Origin.successor pc, ·) ++ later := by
  obtain ⟨front, back, hbody⟩ := List.append_of_mem he
  obtain ⟨pieces₁, pieces₂, rfl, hplace, hpieces₁, hpieces₂⟩ :=
    exists_split_pieces hrelaxed hlabels hspans hsources hbody
  -- The other instructions have lower offsets in front of this one, and higher ones behind it.
  have hordered : (body.map (·.1)).Pairwise (· < ·) := (List.pairwise_append.1 hlabels).1
  rw [hbody, List.map_append, List.map_cons] at hordered
  obtain ⟨_, hbehind, hbefore⟩ := List.pairwise_append.1 hordered
  have hlower : ∀ e ∈ front, e.1 < pc := fun e he =>
    hbefore e.1 (List.mem_map_of_mem he) pc (List.mem_cons_self ..)
  have hhigher : ∀ e ∈ back, pc < e.1 := fun e he =>
    (List.pairwise_cons.1 hbehind).1 e.1 (List.mem_map_of_mem he)
  refine ⟨pieces₁, pieces₂, _, ⟨rfl, fun p hp => ?_, fun p hp => ?_⟩, hplace, hpieces₂⟩
  · have hsource : p.source ∈ pieces₁.map Piece.source := List.mem_map_of_mem hp
    rw [hpieces₁] at hsource
    exact precedes_of_mem_sources hlower hsource
  · have hsource : p.source ∈ pieces₂.map Piece.source := List.mem_map_of_mem hp
    rw [hpieces₂] at hsource
    exact not_precedes_of_mem_sources hhigher hsource

/-- The end of the old body is behind all pieces. Its label is the last line. This is where ranges
of the old body end that reach to its end. -/
theorem exists_cutAt_end (hrelaxed : (patch.listing size body).Widened relaxed)
    (hlabels : (body.map (·.1) ++ [size]).Pairwise (· < ·))
    (hspans : relaxed.Spans relaxed.layout.place 0 pieces)
    (hsources : pieces.map Piece.source = patch.sources body) :
    CutAt pieces size pieces [] ∧ relaxed.layout.place size = .ok (Piece.extent pieces) := by
  refine ⟨⟨(List.append_nil _).symm, fun p hp => ?_, List.forall_mem_nil _⟩, ?_⟩
  · have hlower : ∀ e ∈ body, e.1 < size := fun e he =>
      (List.pairwise_append.1 hlabels).2.2 e.1 (List.mem_map_of_mem he) size
        (List.mem_singleton_self _)
    have hsource : p.source ∈ pieces.map Piece.source := List.mem_map_of_mem hp
    rw [hsources] at hsource
    exact precedes_of_mem_sources hlower (List.mem_append_left _ hsource)
  · obtain ⟨before, rfl, _⟩ := split_relaxed_end hrelaxed
    have hextent := hspans.stop
    rw [Nat.zero_add, Listing.stop_append] at hextent
    rw [← hextent]
    have hnone : size ∉ Listing.labels [] := List.not_mem_nil
    exact Listing.place_of_split hnone

/-- **A relaxed listing that was written is laid out in pieces.** Each field is a fact about the
pieces of its lines; that offsets have places comes from the cuts. -/
theorem laysOut_of_bytes {code written : Bytes}
    (hpatch : patch.TakesRoom) (hdecode : Instruction.decode code = .ok body)
    (hrelax : (patch.listing code.length body).relax = .ok relaxed)
    (hbytes : relaxed.bytes = .ok written) :
    ∃ pieces, patch.LaysOut body code.length relaxed.layout.place written pieces := by
  have hrelaxed := Listing.widened_of_relax hrelax
  have hlabels := Instruction.pairwise_labels_of_decode hdecode
  have hinstructions : (patch.sources body).map (·.2) = relaxed.instructions := by
    rw [map_snd_sources, hrelaxed.instructions, instructions_listing]
  unfold Listing.bytes at hbytes
  simp only at hbytes
  split at hbytes
  · cases hbytes
  · obtain ⟨pieces, hspans, hsources, hwritten⟩ := Listing.exists_spans hbytes hinstructions
    refine ⟨pieces, ?_⟩
    exact {
      sources := hsources
      bytecode := by rwa [List.reverse_nil, List.flatten_nil, List.nil_append] at hwritten
      starts := fun front p back hpieces => by rw [hspans.start hpieces, Nat.zero_add]
      written := hspans.written
      -- A piece without bytes would be one of an instruction that takes up no room.
      filled := by
        intro p hp hempty
        obtain ⟨wide, hp'⟩ := hspans.written p hp
        have hroom : p.instruction.TakesRoom := by
          have hsource : p.source ∈ pieces.map Piece.source := List.mem_map_of_mem hp
          rw [hsources] at hsource
          exact takesRoom_of_mem_sources hpatch
            (fun e he => (Instruction.wellFormed_of_decode hdecode e he).takesRoom) hsource
        have hpos := hroom p.start wide
        rw [← Instruction.length_bytes hp', hempty] at hpos
        exact Nat.lt_irrefl 0 hpos
      labels := by
        intro pc offset hplace
        have hmem := Listing.mem_labels_of_place hplace
        rwa [hrelaxed.labels, labels_listing] at hmem
      -- An old offset is that of an instruction, or the end.
      places := by
        intro pc hpc
        rcases List.mem_append.1 hpc with hpc | hpc
        · obtain ⟨⟨pc, i⟩, he, rfl⟩ := List.mem_map.1 hpc
          obtain ⟨front, back, _, hcut, hplace, _⟩ :=
            exists_cutAt hrelaxed hlabels hspans hsources he
          exact ⟨front, back, hcut, hplace⟩
        · rw [List.mem_singleton.1 hpc]
          exact ⟨_, _, exists_cutAt_end hrelaxed hlabels hspans hsources⟩
      firsts := by
        intro pc i he hne
        obtain ⟨front, back, later, hcut, hplace, hback⟩ :=
          exists_cutAt hrelaxed hlabels hspans hsources he
        obtain ⟨j, js, hj⟩ := List.exists_cons_of_ne_nil hne
        rw [hj, List.map_cons, List.cons_append, List.map_eq_cons_iff] at hback
        obtain ⟨p, rest, rfl, hp, _⟩ := hback
        have horigin : p.origin = .successor pc := congrArg Prod.fst hp
        refine ⟨p, ?_, ?_⟩
        · -- What precedes the instruction is none of what it became.
          have hnone : front.find? (·.origin = .successor pc) = none := by
            rw [List.find?_eq_none]
            intro q hq hsuccessor
            have hprecedes := hcut.front q hq
            rw [of_decide_eq_true hsuccessor] at hprecedes
            exact Nat.lt_irrefl pc hprecedes
          rw [hcut.eq, List.find?_append, hnone, Option.none_or]
          exact List.find?_cons_of_pos (decide_eq_true horigin)
        · rw [hplace, hspans.start hcut.eq, Nat.zero_add] }

end Relaxed

/-! ## What a layout says

From here on nothing is asked of listings any more. -/

namespace LaysOut

variable {patch : CodePatch} {body : List (Nat × Instruction)} {size : Nat}
  {place : Nat → Except ClassError Nat} {bytecode : Bytes} {pieces : List Piece}

/-- Whatever has a new place cuts the pieces there. -/
theorem exists_cut (h : patch.LaysOut body size place bytecode pieces) {pc offset : Nat}
    (hplace : place pc = .ok offset) :
    ∃ front back, CutAt pieces pc front back ∧ offset = Piece.extent front := by
  obtain ⟨front, back, hcut, hextent⟩ := h.places pc (h.labels pc offset hplace)
  rw [hplace] at hextent
  cases hextent
  exact ⟨front, back, hcut, rfl⟩

/-- **On which side of an old offset a piece is.** Which side it is can be told from where the piece
comes from. -/
theorem start_lt_iff (h : patch.LaysOut body size place bytecode pieces) {pc offset : Nat}
    (hplace : place pc = .ok offset) {p : Piece} (hp : p ∈ pieces) :
    p.start < offset ↔ p.origin.Precedes pc := by
  obtain ⟨front, back, hcut, rfl⟩ := h.exists_cut hplace
  rw [hcut.eq] at hp
  rcases List.mem_append.1 hp with hfront | hback
  · -- In front of the cut, its own bytes are too.
    obtain ⟨left, right, rfl⟩ := List.append_of_mem hfront
    have hstart := h.starts left p (right ++ back) (by simpa using hcut.eq)
    have hpos : 0 < p.bytes.length := List.length_pos_iff.2 (h.filled p (hcut.eq ▸ hp))
    have hextent : Piece.extent (left ++ p :: right)
        = Piece.extent left + (p.bytes.length + Piece.extent right) := by simp
    exact iff_of_true (by omega) (hcut.front p hfront)
  · obtain ⟨left, right, rfl⟩ := List.append_of_mem hback
    have hstart := h.starts (front ++ left) p right (by simpa using hcut.eq)
    rw [Piece.extent_append] at hstart
    exact iff_of_false (by omega) (hcut.back p hback)

/-- **Which pieces are between two old offsets**: those whose origin is in the range. -/
theorem covers_iff (h : patch.LaysOut body size place bytecode pieces)
    {start stop start' stop' : Nat} (hstart : place start = .ok start')
    (hstop : place stop = .ok stop') {p : Piece} (hp : p ∈ pieces) :
    start' ≤ p.start ∧ p.start < stop' ↔ p.origin.Within start stop := by
  rw [Origin.within_iff, ← h.start_lt_iff hstart hp, ← h.start_lt_iff hstop hp, Nat.not_lt]

/-- **New offsets are in the order of the old ones**, also where instructions were replaced by
nothing. -/
theorem le_of_le (h : patch.LaysOut body size place bytecode pieces) {pc pc' offset offset' : Nat}
    (hplace : place pc = .ok offset) (hplace' : place pc' = .ok offset') (hle : pc ≤ pc') :
    offset ≤ offset' := by
  obtain ⟨front, back, hcut, rfl⟩ := h.exists_cut hplace
  obtain ⟨front', back', hcut', rfl⟩ := h.exists_cut hplace'
  rcases List.append_eq_append_iff.1 (hcut.eq.symm.trans hcut'.eq) with
    ⟨between, rfl, _⟩ | ⟨between, rfl, rfl⟩
  · rw [Piece.extent_append]
    exact Nat.le_add_right _ _
  · -- What is between the cuts this way round precedes the first and not the second.
    have hnone : between = [] := by
      refine List.eq_nil_iff_forall_not_mem.2 fun p hp => ?_
      have hprecedes := hcut.front p (List.mem_append_right _ hp)
      exact hcut'.back p (List.mem_append_left _ hp) (hprecedes.of_le hle)
    exact Nat.le_of_eq (by rw [hnone, List.append_nil])

/-- The new offset of an instruction that became something is below all later ones. -/
theorem lt_of_lt (h : patch.LaysOut body size place bytecode pieces) {pc pc' offset offset' : Nat}
    {i : Instruction} (he : (pc, i) ∈ body) (hne : patch.successorsAt pc i ≠ [])
    (hplace : place pc = .ok offset) (hplace' : place pc' = .ok offset') (hlt : pc < pc') :
    offset < offset' := by
  obtain ⟨p, hp, hstart⟩ := h.firsts pc i he hne
  rw [hplace] at hstart
  cases hstart
  have horigin : p.origin = .successor pc := by simpa using List.find?_some hp
  rw [h.start_lt_iff hplace' (List.mem_of_find?_eq_some hp), horigin]
  exact hlt

end LaysOut
end CodePatch
end ClassLoom
