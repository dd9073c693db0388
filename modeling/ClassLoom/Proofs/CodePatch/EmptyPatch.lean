import ClassLoom.Proofs.CodePatch.Unmoved
import ClassLoom.Proofs.Listing.Reread

/-!
# The empty patch

A patch without edits lays a body out where it was: no branch is widened, and no offset moves. So
it does what every patch does besides its edits. It clears the padding of switches, spells stack
map frames in their short forms, and drops the attributes that a patch cannot move. What any other
patch gives has all of that behind it, and the empty patch leaves it alone.

* `relax_listing_empty`, `keeps_listing_empty`: the layout of a body that is not edited;
* `Restated`: a body up to padding, the spelling of frames and dropped attributes;
* `apply_empty_restates`: what the empty patch gives, and what it gives once more.
-/

namespace ClassLoom

/-! ## Branches that were read

A short branch that was read has its distance in a word, so it reaches its target as long as neither
moves. -/

namespace Instruction

/-- Whether an instruction at `pc` is no short branch that does not reach its target. -/
def Reaches (pc : Nat) (i : Instruction) : Prop :=
  ∀ op target, i = branch op target → Opcode.isWideBranch op = false →
    fitsShort ((target : Int) - (pc : Int)) = true

/-- A short branch that was read reaches its target. Its distance was read from 16 bits, and it is
the distance of its two ends. -/
theorem reaches_of_read {size pc : Nat} {op : UInt8} {i : Instruction} {bs rest : Bytes}
    (h : read size pc op bs = .ok (i, rest)) : i.Reaches pc := by
  intro op' target hi hnarrow
  cases reads_of_read h with
  | @shortBranch d target' _ _ htarget =>
    cases hi
    -- What 16 bits can hold is what fits.
    have hlow := d.toInt16.le_toInt
    have hhigh := d.toInt16.toInt_lt
    have hd := (targetAt_eq_ok.1 htarget).1
    rw [fitsShort, Bool.and_eq_true, decide_eq_true_eq, decide_eq_true_eq]
    omega
  | wideBranch hop =>
    cases hi
    rw [hop] at hnarrow
    cases hnarrow
  | tableSwitch _ _ hread =>
    obtain ⟨_, _, _, _, _, _, rfl, _⟩ := readTableSwitch_eq_ok hread
    cases hi
  | lookupSwitch _ _ hread =>
    obtain ⟨_, _, _, _, _, rfl, _⟩ := readLookupSwitch_eq_ok hread
    cases hi
  | plain => cases hi

/-- So does every branch of a walk. It was read from two bytes, so its distance fits into two
bytes. -/
theorem reaches_of_decodeOnto {size pc : Nat} {bs : Bytes} {done body : List (Nat × Instruction)}
    (h : decodeOnto size done pc bs = .ok body) (hdone : ∀ e ∈ done, e.2.Reaches e.1) :
    ∀ e ∈ body, e.2.Reaches e.1 := by
  induction done, pc, bs using decodeOnto.induct size with
  | case1 done pc =>
    unfold decodeOnto at h
    cases h
    exact fun e he => hdone e (List.mem_reverse.1 he)
  | case2 done pc op rest e hread =>
    unfold decodeOnto at h
    simp only [hread] at h
    cases h
  | case3 done pc op rest i left hread ih =>
    unfold decodeOnto at h
    simp only [hread] at h
    exact ih h (List.forall_mem_cons.2 ⟨reaches_of_read hread, hdone⟩)

theorem reaches_of_decode {code : Bytes} {body : List (Nat × Instruction)}
    (h : decode code = .ok body) : ∀ e ∈ body, e.2.Reaches e.1 :=
  reaches_of_decodeOnto (decode_eq_ok.1 h).1 (List.forall_mem_nil _)

end Instruction

namespace CodePatch

open Instruction (Consecutive Reaches InPadding)

/-! ## The layout of a body that is not edited

The listing has a label in front of each instruction and nothing else that was not in the body. By
induction on the body, every label lies at the offset that it stands for. -/

theorem listing_empty_nil (size : Nat) : empty.listing size [] = [.label size] := rfl

theorem listing_empty_cons (size pc : Nat) (i : Instruction) (body : List (Nat × Instruction)) :
    empty.listing size ((pc, i) :: body)
      = .label pc :: .code i false :: empty.listing size body := rfl

section Empty

variable {start size : Nat} {body : List (Nat × Instruction)}

/-- The instructions of the listing lie where they were. The labels between them take up nothing. So
the new code is as long as the old one. -/
theorem placed_listing_empty (h : Consecutive start body size) :
    Listing.placed id start (empty.listing size body) = body
      ∧ Listing.stop start (empty.listing size body) = size := by
  induction body generalizing start with
  | nil => exact ⟨rfl, h⟩
  | cons e body ih =>
    obtain ⟨pc, i⟩ := e
    obtain ⟨rfl, hrest⟩ := h
    obtain ⟨hplaced, hstop⟩ := ih hrest
    rw [listing_empty_cons]
    refine ⟨?_, hstop⟩
    show (pc, i.placed id false) :: Listing.placed id _ (empty.listing size body) = (pc, i) :: body
    rw [Instruction.placed_id]
    exact congrArg ((pc, i) :: ·) hplaced

/-- Its labels lie at the offsets that they stand for. -/
theorem stop_of_split (h : Consecutive start body size) {front back : Listing} {pc : Nat}
    (hsplit : empty.listing size body = front ++ .label pc :: back) :
    Listing.stop start front = pc := by
  -- On the body, with the labels in front already at their places.
  induction body generalizing start front with
  | nil =>
    cases h
    rcases List.cons_eq_append_iff.1 hsplit with ⟨rfl, hlabel⟩ | ⟨front, rfl, hbehind⟩
    · cases hlabel
      rfl
    · simp at hbehind
  | cons e body ih =>
    obtain ⟨pc', i⟩ := e
    obtain ⟨rfl, hrest⟩ := h
    rw [listing_empty_cons] at hsplit
    -- The label is that of the first instruction, or one behind it.
    rcases List.cons_eq_append_iff.1 hsplit with ⟨rfl, hlabel⟩ | ⟨front, rfl, hbehind⟩
    · cases hlabel
      rfl
    · rcases List.cons_eq_append_iff.1 hbehind with ⟨rfl, hlabel⟩ | ⟨front, rfl, hbehind⟩
      · cases hlabel
      · exact ih hrest (List.cons.inj hbehind).2

/-- **No offset moves.** -/
theorem keeps_listing_empty (h : Consecutive 0 body size) {pc offset : Nat}
    (hplace : (empty.listing size body).layout.place pc = .ok offset) : offset = pc := by
  obtain ⟨front, back, hsplit, rfl⟩ := Listing.split_of_place hplace
  exact stop_of_split h hsplit

/-- All offsets of instructions, and the end, have places. -/
theorem place_listing_empty (h : Consecutive 0 body size) {pc : Nat}
    (hpc : pc ∈ body.map (·.1) ++ [size]) :
    (empty.listing size body).layout.place pc = .ok pc := by
  rw [← labels_listing empty] at hpc
  obtain ⟨front, back, hsplit, hplace⟩ := Listing.exists_split_place hpc
  rw [hplace, stop_of_split h hsplit]

/-- A line stays as it is if its instruction reaches a target that stays. Only short branches can be
widened at all. -/
theorem widenLine_eq_self {place : Nat → Except ClassError Nat} {pc : Nat} {i : Instruction}
    (hreach : i.Reaches pc) (hplace : ∀ t ∈ i.targets, place t = .ok t) :
    Listing.widenLine place pc (.code i false) = .ok (.code i false) := by
  cases i with
  | branch op target =>
    simp only [Listing.widenLine]
    split
    · rfl
    · next hnarrow =>
      rw [hplace target (List.mem_cons_self ..)]
      show (if _ then _ else _) = _
      rw [if_pos (hreach op target rfl (by simpa using hnarrow))]
      rfl
  | _ => rfl

/-- A round of widening gives the listing back, if all instructions reach targets that stay.
Relaxing is over after one round then. -/
theorem widenOnto_listing_empty {place : Nat → Except ClassError Nat}
    (h : Consecutive start body size) (hreach : ∀ e ∈ body, e.2.Reaches e.1)
    (hplace : ∀ e ∈ body, ∀ t ∈ e.2.targets, place t = .ok t) (done : Listing) :
    Listing.widenOnto place done start (empty.listing size body)
      = .ok (done.reverse ++ empty.listing size body) := by
  induction body generalizing start done with
  | nil =>
    show Except.ok ((Line.label size :: done).reverse) = _
    rw [List.reverse_cons, listing_empty_nil]
  | cons e body ih =>
    obtain ⟨pc, i⟩ := e
    obtain ⟨rfl, hrest⟩ := h
    obtain ⟨hhere, hreach⟩ := List.forall_mem_cons.1 hreach
    obtain ⟨htargets, hplace⟩ := List.forall_mem_cons.1 hplace
    rw [listing_empty_cons]
    show (Listing.widenLine place pc (.code i false) >>= fun line =>
      Listing.widenOnto place (line :: .label pc :: done) _ (empty.listing size body)) = _
    rw [widenLine_eq_self hhere htargets]
    refine (ih hrest hreach hplace _).trans ?_
    simp

end Empty

section Decoded

variable {bytecode : Bytes} {body : List (Nat × Instruction)}

/-- Every target stays. -/
theorem place_target (hdecode : Instruction.decode bytecode = .ok body) :
    ∀ e ∈ body, ∀ t ∈ e.2.targets,
      (empty.listing bytecode.length body).layout.place t = .ok t :=
  fun e he t ht => place_listing_empty (Instruction.consecutive_of_decode hdecode)
    (List.mem_append_left _ (Instruction.mem_starts_of_decode hdecode e he t ht))

/-- **No branch is widened.** -/
theorem relax_listing_empty (hdecode : Instruction.decode bytecode = .ok body) :
    (empty.listing bytecode.length body).relax = .ok (empty.listing bytecode.length body) := by
  have hwiden : (empty.listing bytecode.length body).widen
      = .ok (empty.listing bytecode.length body) :=
    widenOnto_listing_empty (Instruction.consecutive_of_decode hdecode)
      (Instruction.reaches_of_decode hdecode) (place_target hdecode) []
  unfold Listing.relax Listing.relaxFor
  rw [hwiden]
  show (if _ then _ else _) = _
  rw [if_pos rfl]
  rfl

/-- The body is assembled as it was decoded. Labels are not written, and no line is wide. Only the
padding of switches is not kept, since it was skipped when the body was decoded. -/
theorem bytesOnto_listing_empty (hdecode : Instruction.decode bytecode = .ok body) :
    Listing.bytesOnto (empty.listing bytecode.length body).layout.place [] 0
      (empty.listing bytecode.length body) = Instruction.assemble (body.map (·.2)) := by
  have hrow := Instruction.consecutive_of_decode hdecode
  rw [Listing.bytesOnto_eq_assembleOnto (f := id), (placed_listing_empty hrow).1]
  · rfl
  · intro i wide hmem t ht
    have hi := Listing.mem_instructions.2 ⟨wide, hmem⟩
    rw [instructions_listing] at hi
    obtain ⟨e, he, hi⟩ := List.mem_flatMap.1 hi
    obtain rfl := List.mem_singleton.1 hi
    exact place_target hdecode e he t ht

/-- So its code is what its instructions assemble to. -/
theorem bytes_listing_empty (hdecode : Instruction.decode bytecode = .ok body) {written : Bytes} :
    (empty.listing bytecode.length body).bytes = .ok written
      ↔ bytecode.length ≤ 65535 ∧ Instruction.assemble (body.map (·.2)) = .ok written := by
  rw [Listing.bytes_eq_ok, bytesOnto_listing_empty hdecode,
    (placed_listing_empty (Instruction.consecutive_of_decode hdecode)).2]

end Decoded

/-! ## Bodies up to how they are written

The empty patch decodes and assembles, and writes frames in their shortest forms. What gets lost
that way is what two bodies with the same meaning may differ in. -/

/-- What the empty patch may change of a body: the padding of its switches, how its stack map
frames are spelled, and what attributes it drops. -/
structure Restated (code patched : Code) : Prop where
  maxStack : patched.maxStack = code.maxStack
  maxLocals : patched.maxLocals = code.maxLocals
  handlers : patched.handlers = code.handlers
  /-- All instructions are where they were, and what they were. -/
  body : ∃ body, Instruction.decode code.bytecode = .ok body
    ∧ Instruction.decode patched.bytecode = .ok body
    ∧ patched.bytecode.length = code.bytecode.length
    ∧ (∀ k, InPadding body k → patched.bytecode[k]? = some 0)
    ∧ ∀ k, ¬ InPadding body k → patched.bytecode[k]? = code.bytecode[k]?
  /-- The attributes that are not dropped are still there, in order. -/
  attributes : List.Forall₂ Respelled (code.attributes.filter fun a => !isDropped a)
    patched.attributes

/-- **What the empty patch gives.** As no offset moves, handlers and tables of variables stay; the
code is assembled again, and the frames are written anew. -/
theorem restated_of_apply_empty {code patched : Code} (h : empty.apply code = .ok patched) :
    Restated code patched := by
  obtain ⟨body, relaxed, hdecode, hrelax, hbytes, hstack, hlocals, hhandlers, hattributes⟩ :=
    apply_eq_ok h
  obtain rfl := Except.ok.inj (hrelax.symm.trans (relax_listing_empty hdecode))
  have hrow := Instruction.consecutive_of_decode hdecode
  have hkeeps (pc offset : Nat)
      (h : (empty.listing code.bytecode.length body).layout.place pc = .ok offset) : offset = pc :=
    keeps_listing_empty hrow h
  have hstays {pc offset : Nat}
      (h : (empty.listing code.bytecode.length body).layout.place pc = .ok offset) :
      (empty.listing code.bytecode.length body).layout.place pc = .ok pc :=
    (hkeeps pc offset h).symm ▸ h
  -- No offset moves, so the instructions are assembled with the targets that they had.
  obtain ⟨hlimit, hassemble⟩ := (bytes_listing_empty hdecode).1 hbytes
  have hdecode' := Instruction.decode_reassembled hdecode (by omega) hassemble
  obtain ⟨behind, written, hbody, hcleared, hwritten⟩ :=
    Instruction.cleared_of_decodeOnto (Instruction.decode_eq_ok.1 hdecode).1 (by omega) (by omega)
  obtain rfl : body = behind := hbody
  obtain rfl : patched.bytecode = written := Except.ok.inj (hassemble.symm.trans (hwritten []))
  refine ⟨hstack, hlocals, ?_, ⟨body, hdecode, hdecode', hcleared.length_eq, fun k hk => ?_,
    fun k hk => ?_⟩, ?_⟩
  · have hsame := mapM_eq_self fun handler hmem => by
      obtain ⟨_, hmove⟩ := exists_ok_of_mapM hhandlers handler hmem
      obtain ⟨hstart, hstop, htarget⟩ := places_of_moveHandler hmove
      exact moveHandler_eq_self (hstays hstart) (hstays hstop) (hstays htarget)
    exact Except.ok.inj (hhandlers.symm.trans hsame)
  · exact hcleared.getElem?_of_inPadding (by rwa [Nat.zero_add])
  · exact hcleared.getElem?_of_not_inPadding (by rwa [Nat.zero_add])
  · exact (mapM_eq_ok.1 hattributes).imp fun _ _ => respelled_of_moveAttribute hkeeps

/-! ## Bodies that were patched

What a patch writes is already in the form that the empty patch would give it: the switches have
zeros, the frames are short, and there is nothing left to drop. -/

/-- Whether all instructions that a patch puts in are well-formed. -/
def WellFormed (patch : CodePatch) : Prop :=
  ∀ e ∈ patch.edits.toList, (∀ i ∈ e.2.before, i.WellFormed)
    ∧ ∀ is ∈ e.2.replacement, ∀ i ∈ is, i.WellFormed

instance : DecidablePred WellFormed := fun patch =>
  inferInstanceAs (Decidable (∀ e ∈ patch.edits.toList, (∀ i ∈ e.2.before, i.WellFormed)
    ∧ ∀ is ∈ e.2.replacement, ∀ i ∈ is, i.WellFormed))

section WellFormed

variable {patch : CodePatch} (hpatch : patch.WellFormed)
include hpatch

theorem WellFormed.takesRoom : patch.TakesRoom := fun e he =>
  ⟨fun i hi => ((hpatch e he).1 i hi).takesRoom,
    fun is his i hi => ((hpatch e he).2 is his i hi).takesRoom⟩

/-- What the patch makes of well-formed instructions is well-formed. An instruction without a
replacement stays, and is well-formed by itself. -/
theorem WellFormed.expansionAt {e : Nat × Instruction} (he : e.2.WellFormed) :
    ∀ i ∈ patch.expansionAt e, i.WellFormed := by
  intro i hi
  have hedit : (∀ i ∈ (patch.editAt e.1).before, i.WellFormed)
      ∧ ∀ is ∈ (patch.editAt e.1).replacement, ∀ i ∈ is, i.WellFormed := by
    rcases patch.editAt_cases e.1 with hmem | hempty
    · exact hpatch _ hmem
    · rw [hempty]
      exact ⟨List.forall_mem_nil _, fun _ hnone => nomatch hnone⟩
  -- It was put in front, or it is what the instruction becomes.
  rcases List.mem_append.1 hi with hi | hi
  · exact hedit.1 i hi
  · unfold successorsAt at hi
    cases hreplacement : (patch.editAt e.1).replacement with
    | none =>
      rw [hreplacement, Option.getD_none, List.mem_singleton] at hi
      rw [hi]
      exact he
    | some is =>
      rw [hreplacement] at hi
      exact hedit.2 is hreplacement i hi

end WellFormed

/-- Applying a patch without stray edits, step by step. It succeeds if each of its steps does, from
decoding to the attributes. -/
theorem apply_eq_of_steps {patch : CodePatch} {code : Code} {body : List (Nat × Instruction)}
    {relaxed : Listing} {bytecode : Bytes} {handlers : List ExceptionHandler}
    {attributes : List Attribute} (hdecode : Instruction.decode code.bytecode = .ok body)
    (hstray : patch.strayEdit? body = none)
    (hrelax : (patch.listing code.bytecode.length body).relax = .ok relaxed)
    (hbytes : relaxed.bytes = .ok bytecode)
    (hhandlers : code.handlers.mapM (moveHandler relaxed.layout.place) = .ok handlers)
    (hattributes : (code.attributes.filter fun a => !isDropped a).mapM
      (moveAttribute relaxed.layout.place) = .ok attributes) :
    patch.apply code = .ok { code with bytecode, handlers, attributes } := by
  unfold apply
  refine bind_eq_ok.2 ⟨body, hdecode, ?_⟩
  simp only [hstray]
  refine bind_eq_ok.2 ⟨relaxed, hrelax, ?_⟩
  refine bind_eq_ok.2 ⟨bytecode, hbytes, ?_⟩
  refine bind_eq_ok.2 ⟨handlers, hhandlers, ?_⟩
  exact bind_eq_ok.2 ⟨attributes, hattributes, rfl⟩

/-- No attribute of a patched body is one that a patch drops. -/
theorem filter_isDropped_of_moved {place : Nat → Except ClassError Nat}
    {attributes moved : List Attribute}
    (h : (attributes.filter fun a => !isDropped a).mapM (moveAttribute place) = .ok moved) :
    moved.filter (fun a => !isDropped a) = moved := by
  refine List.filter_eq_self.2 fun a' ha' => ?_
  obtain ⟨a, ha, hmove⟩ := exists_of_mem_right (mapM_eq_ok.1 h) ha'
  have hname : isDropped a' = isDropped a := by
    unfold isDropped
    rw [name_of_moveAttribute hmove]
  rw [hname]
  exact (List.mem_filter.1 ha).2

/-- **What a patch gives, the empty patch leaves alone**, if it decodes. Its branches reach their
targets, its switches have been written by the assembler, and its attributes are those that a patch
keeps. -/
theorem apply_empty_of_apply {patch : CodePatch} {code patched : Code}
    {moved : List (Nat × Instruction)} (hpatch : patch.WellFormed)
    (h : patch.apply code = .ok patched)
    (hmoved : Instruction.decode patched.bytecode = .ok moved) :
    empty.apply patched = .ok patched := by
  obtain ⟨body, relaxed, hdecode, hrelax, hbytes, _, _, hhandlers, hattributes⟩ := apply_eq_ok h
  obtain ⟨pieces, hlays⟩ := laysOut_of_bytes hpatch.takesRoom hdecode hrelax hbytes
  have hrelaxed := Listing.widened_of_relax hrelax
  have hwf : ∀ i wide, Line.code i wide ∈ relaxed → i.WellFormed := by
    intro i wide hmem
    have hi := Listing.mem_instructions.2 ⟨wide, hmem⟩
    rw [hrelaxed.instructions, instructions_listing] at hi
    obtain ⟨e, he, hi⟩ := List.mem_flatMap.1 hi
    exact hpatch.expansionAt (Instruction.wellFormed_of_decode hdecode e he) i hi
  obtain ⟨rfl, hlength⟩ := Listing.placed_of_decode hbytes hwf hmoved
  have hrow := Instruction.consecutive_of_decode hmoved
  -- Every place that the patch moved something to is one that stays.
  have hfixed : ∀ pc offset, relaxed.layout.place pc = .ok offset →
      (empty.listing patched.bytecode.length
        (Listing.placed relaxed.offsetOf 0 relaxed)).layout.place offset = .ok offset := by
    intro pc offset hplace
    have hmem := Listing.mem_boundaries_of_place hplace relaxed.offsetOf
    rw [← hlength] at hmem
    exact place_listing_empty hrow hmem
  have hagain := (bytes_listing_empty hmoved).2
    ⟨hlength ▸ (Listing.bytes_eq_ok.1 hbytes).1, Listing.assemble_placed hbytes⟩
  refine apply_eq_of_steps hmoved rfl (relax_listing_empty hmoved) hagain ?_ ?_
  · refine mapM_eq_self fun handler hmem => ?_
    obtain ⟨_, _, hmove⟩ := exists_of_mem_right (mapM_eq_ok.1 hhandlers) hmem
    obtain ⟨hstart, hstop, htarget⟩ := places_of_moveHandler hmove
    exact moveHandler_eq_self (hfixed _ _ hstart) (hfixed _ _ hstop) (hfixed _ _ htarget)
  · rw [filter_isDropped_of_moved hattributes]
    refine mapM_eq_self fun a' hmem => ?_
    obtain ⟨_, _, hmove⟩ := exists_of_mem_right (mapM_eq_ok.1 hattributes) hmem
    exact moveAttribute_again hfixed (fun _ _ _ _ => hlays.le_of_le) hmove

/-- **The empty patch is a normaliser.** It keeps everything about a body but the padding of
switches, the spelling of stack map frames and the attributes that it drops, and it leaves what any
patch gives as it is. -/
theorem apply_empty_restates :
    (∀ code patched, empty.apply code = .ok patched → Restated code patched)
    ∧ ∀ (patch : CodePatch) (code patched : Code) (moved : List (Nat × Instruction)),
      patch.WellFormed → patch.apply code = .ok patched →
      Instruction.decode patched.bytecode = .ok moved → empty.apply patched = .ok patched :=
  ⟨fun _ _ => restated_of_apply_empty, fun _ _ _ _ => apply_empty_of_apply⟩

/-- A switch with padding that is not zeros, and a frame in an extended form. The empty patch clears
both, and so does another one, after which nothing is left to clear. -/
theorem apply_empty_restates_padded :
    let code : Code :=
      { maxStack := 1, maxLocals := 0, handlers := [⟨0, 12, 12, 0⟩],
        bytecode := [0xab, 1, 2, 3, 0, 0, 0, 12, 0, 0, 0, 0, 0xb1],
        attributes := [⟨"StackMapTable", [0, 1, 251, 0, 12]⟩,
          ⟨"RuntimeVisibleTypeAnnotations", []⟩] }
    let cleared : Code :=
      { maxStack := 1, maxLocals := 0, handlers := [⟨0, 12, 12, 0⟩],
        bytecode := [0xab, 0, 0, 0, 0, 0, 0, 12, 0, 0, 0, 0, 0xb1],
        attributes := [⟨"StackMapTable", [0, 1, 12]⟩] }
    let patched : Code :=
      { maxStack := 1, maxLocals := 0, handlers := [⟨0, 13, 13, 0⟩],
        bytecode := [0xab, 0, 0, 0, 0, 0, 0, 13, 0, 0, 0, 0, 0x00, 0xb1],
        attributes := [⟨"StackMapTable", [0, 1, 13]⟩] }
    let patch := empty.insertBefore 12 [.op 0x00]
    empty.apply code = .ok cleared ∧ Restated code cleared
      ∧ patch.WellFormed ∧ patch.apply code = .ok patched
      ∧ (∃ moved, Instruction.decode patched.bytecode = .ok moved)
      ∧ empty.apply patched = .ok patched := by
  intro code cleared patched patch
  have hcleared : empty.apply code = .ok cleared := by decide +kernel
  have hpatch : patch.WellFormed := by decide +kernel
  have hpatched : patch.apply code = .ok patched := by decide +kernel
  obtain ⟨moved, hmoved⟩ : ∃ moved, Instruction.decode patched.bytecode = .ok moved := by
    decide +kernel
  exact ⟨hcleared, apply_empty_restates.1 code cleared hcleared, hpatch, hpatched, ⟨moved, hmoved⟩,
    apply_empty_restates.2 patch code patched moved hpatch hpatched hmoved⟩

end CodePatch
end ClassLoom
