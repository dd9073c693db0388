import ClassLoom.Proofs.CodePatch.Changes
import ClassLoom.Proofs.Listing.Decoded

/-!
# Patched bodies

The body of a patched method is the old one with every instruction expanded to what the calls
put in front of it and to what they made of it, in the old order. Every target is moved to the
first instruction of what its old target became, and no opcode changes but that of a short
`goto` or `jsr` that no longer reaches its target.

* `apply_eq_ok`: the steps of a patch that succeeds;
* `decode_apply`: the patched body decodes to a `PatchedBody`.
-/

namespace ClassLoom

/-- Whether `j` is the instruction `i` with its targets moved by `f`, in its wide form at most
if it is a short `goto` or `jsr`. -/
inductive Instruction.Relocated (f : Nat → Nat) : Instruction → Instruction → Prop where
  | same (i : Instruction) : Relocated f i (i.placed f false)
  | widened (op : UInt8) (target : Nat) (h : Opcode.isWidenable op = true) :
    Relocated f (.branch op target) (.branch (Opcode.widened op) (f target))

namespace CodePatch

open CodeChange

/-- What a patch by `changes` makes of a decoded body: `moved` is the new one, and `newOffset`
tells where in the new one the old offsets are. -/
structure PatchedBody (changes : List CodeChange) (body moved : List (Nat × Instruction))
    (newOffset : Nat → Nat) : Prop where
  /-- The new instructions are the expansions of the old ones, in order. -/
  instructions : List.Forall₂ (Instruction.Relocated newOffset)
    (body.flatMap (expansion changes)) (moved.map (·.2))
  /-- Only offsets of old instructions are targets. -/
  targets : ∀ i ∈ body.flatMap (expansion changes), ∀ t ∈ i.targets, t ∈ body.map (·.1)
  /-- The new offset of an old instruction is the one of the first instruction that it became,
  behind all that was put in front of it. -/
  offsets : ∀ front pc i back, body = front ++ (pc, i) :: back →
    (moved.map (·.1))[(front.flatMap (expansion changes)).length
      + (inserted changes pc).length]? = some (newOffset pc)

/-! ## Relaxed listings

Relaxing changes the width of some jumps and nothing else, so the instructions behind it are those
of the listing, moved to where their labels lie. -/

/-- The instructions of a relaxed listing are those of the listing, moved. -/
theorem relocated_of_widened {listing relaxed : Listing} (h : listing.Widened relaxed)
    (hnarrow : ∀ i wide, Line.code i wide ∈ listing → wide = false) (f : Nat → Nat) (pos : Nat) :
    List.Forall₂ (Instruction.Relocated f) listing.instructions
      ((Listing.placed f pos relaxed).map (·.2)) := by
  induction h generalizing pos with
  | nil => exact .nil
  | @cons line _ rest _ hline _ ih =>
    have hrest := ih fun i wide hmem => hnarrow i wide (List.mem_cons_of_mem _ hmem)
    -- A line is as it was, or a short jump that has been widened. Labels take no part.
    cases hline with
    | same =>
      cases line with
      | label pc => exact hrest pos
      | code i wide =>
        have hwide : wide = false := hnarrow i wide (List.mem_cons_self ..)
        subst hwide
        exact .cons (.same i) (hrest _)
    | wide op target hop =>
      have hnotWide : Opcode.isWideBranch op = false := by
        simp only [Opcode.isWidenable, Bool.or_eq_true, decide_eq_true_eq] at hop
        rcases hop with rfl | rfl <;> rfl
      have hself := Instruction.Relocated.widened (f := f) op target hop
      refine .cons ?_ (hrest _)
      simpa [Instruction.placed, hnotWide] using hself

section Relaxed

variable {changes : List CodeChange} {size : Nat} {body : List (Nat × Instruction)}
  {relaxed : Listing}

/-- Where an old instruction is in a relaxed listing: its label stands in front of the first
instruction that it became. -/
theorem split_successor (hrelaxed : ((ofChanges changes).listing size body).Widened relaxed)
    (hwf : ∀ c ∈ changes, c.WellFormed size)
    (hlabels : (body.map (·.1) ++ [size]).Pairwise (· < ·)) {front back : List (Nat × Instruction)}
    {pc : Nat} {i : Instruction} (hbody : body = front ++ (pc, i) :: back) :
    ∃ (front' back' : Listing) (j : Instruction) (wide : Bool),
      relaxed = front' ++ .label pc :: .code j wide :: back'
      ∧ pc ∉ Listing.labels back'
      ∧ front'.instructions = front.flatMap (expansion changes) ++ inserted changes pc := by
  obtain ⟨front', successors, behind, rfl, hpc, hfront, hsuccessors, _⟩ :=
    split_relaxed hrelaxed hlabels hbody
  rw [expansionAt_ofChanges, insertedAt_ofChanges] at hfront
  obtain ⟨j, js, hj⟩ := List.exists_cons_of_ne_nil (successors_ne_nil hwf pc i)
  rw [successorsAt_ofChanges, hj] at hsuccessors
  cases hsuccessors with
  | @cons _ line _ rest hline hrest =>
    obtain ⟨wide, rfl⟩ : ∃ wide, line = .code j wide := by
      cases hline with
      | same => exact ⟨false, rfl⟩
      | wide op target hop => exact ⟨true, rfl⟩
    exact ⟨front', rest ++ behind, j, wide, rfl, hpc, hfront⟩

/-- Every old instruction has a label in front of an instruction. -/
theorem leads_of_mem (hrelaxed : ((ofChanges changes).listing size body).Widened relaxed)
    (hwf : ∀ c ∈ changes, c.WellFormed size)
    (hlabels : (body.map (·.1) ++ [size]).Pairwise (· < ·)) {pc : Nat}
    (h : pc ∈ body.map (·.1)) : relaxed.Leads pc := by
  obtain ⟨⟨pc', i⟩, hmem, rfl⟩ := List.mem_map.1 h
  obtain ⟨front, back, hbody⟩ := List.append_of_mem hmem
  obtain ⟨front', back', j, wide, heq, hback, _⟩ := split_successor hrelaxed hwf hlabels hbody
  exact ⟨front', j, wide, back', heq, hback⟩

/-- The instructions of the laid out listing are a patched body. -/
theorem patchedBody_placed (hrelaxed : ((ofChanges changes).listing size body).Widened relaxed)
    (hwf : ∀ c ∈ changes, c.WellFormed size)
    (hlabels : (body.map (·.1) ++ [size]).Pairwise (· < ·))
    (htargets : ∀ i ∈ body.flatMap (expansion changes), ∀ t ∈ i.targets, t ∈ body.map (·.1)) :
    PatchedBody changes body (Listing.placed relaxed.offsetOf 0 relaxed) relaxed.offsetOf where
  instructions := by
    have h := relocated_of_widened hrelaxed (fun _ _ => narrow_listing _ size body)
      relaxed.offsetOf 0
    rwa [instructions_listing, expansionAt_ofChanges] at h
  targets := htargets
  offsets := by
    intro front pc i back hbody
    obtain ⟨front', back', j, wide, rfl, hback, hinstructions⟩ :=
      split_successor hrelaxed hwf hlabels hbody
    have hoffset : Listing.offsetOf (front' ++ .label pc :: .code j wide :: back') pc
        = Listing.stop 0 front' :=
      Listing.offsetOf_of_place (Listing.place_of_split (by simpa [Listing.labels] using hback))
    rw [List.getElem?_map, ← List.length_append, ← hinstructions, Listing.getElem?_placed, hoffset]
    rfl

end Relaxed

/-! ## Patching

The parts of applying a patch one after the other, and what they give together. -/

/-- **What a patch does** when it succeeds: it decodes the old body, relaxes and writes the
listing, and moves handlers and attributes to the places of their labels. -/
theorem apply_eq_ok {patch : CodePatch} {code patched : Code}
    (h : patch.apply code = .ok patched) :
    ∃ body relaxed, Instruction.decode code.bytecode = .ok body
      ∧ (patch.listing code.bytecode.length body).relax = .ok relaxed
      ∧ relaxed.bytes = .ok patched.bytecode
      ∧ patched.maxStack = code.maxStack ∧ patched.maxLocals = code.maxLocals
      ∧ code.handlers.mapM (moveHandler relaxed.layout.place) = .ok patched.handlers
      ∧ (code.attributes.filter fun a => !isDropped a).mapM
          (moveAttribute relaxed.layout.place) = .ok patched.attributes := by
  unfold apply at h
  obtain ⟨body, hdecode, h⟩ := bind_eq_ok.1 h
  simp only at h
  split at h
  · cases h
  · obtain ⟨relaxed, hrelaxed, h⟩ := bind_eq_ok.1 h
    obtain ⟨bytecode, hbytes, h⟩ := bind_eq_ok.1 h
    obtain ⟨handlers, hhandlers, h⟩ := bind_eq_ok.1 h
    obtain ⟨attributes, hattributes, h⟩ := bind_eq_ok.1 h
    cases h
    exact ⟨body, relaxed, hdecode, hrelaxed, hbytes, rfl, rfl, hhandlers, hattributes⟩

/-- A listing of a patched body that has been relaxed and written decodes to the old body
expanded and moved. -/
theorem patchedBody_of_relax {changes : List CodeChange} {bytecode written : Bytes}
    {body : List (Nat × Instruction)} {relaxed : Listing}
    (hwf : ∀ c ∈ changes, c.WellFormed bytecode.length)
    (hdecode : Instruction.decode bytecode = .ok body)
    (hrelax : ((ofChanges changes).listing bytecode.length body).relax = .ok relaxed)
    (hbytes : relaxed.bytes = .ok written) :
    ∃ moved newOffset, Instruction.decode written = .ok moved
      ∧ PatchedBody changes body moved newOffset := by
  have hrelaxed := Listing.widened_of_relax hrelax
  have hbody := Instruction.wellFormed_of_decode hdecode
  have hrow := Instruction.consecutive_of_decode hdecode
  have hordered := Instruction.pairwise_labels_of_decode hdecode
  have hlt : ∀ e ∈ body, e.1 < bytecode.length := fun e he => ((hrow.bounds hbody).2 e he).2
  -- No instruction of the old body goes to its end, and so none of the new one does.
  have hends : ∀ e ∈ body, e.2.WellFormed ∧ bytecode.length ∉ e.2.targets := by
    intro e he
    refine ⟨hbody e he, fun hend => ?_⟩
    obtain ⟨e', he', hstart⟩ := List.mem_map.1
      (Instruction.mem_starts_of_decode hdecode e he _ hend)
    exact Nat.ne_of_lt (hlt e' he') hstart
  have hexpansion : ∀ i ∈ body.flatMap (expansion changes),
      i.WellFormed ∧ bytecode.length ∉ i.targets := by
    intro i hi
    obtain ⟨e, he, hi⟩ := List.mem_flatMap.1 hi
    exact mem_expansion hwf (hends e he) hi
  have hinstructions : relaxed.instructions = body.flatMap (expansion changes) := by
    rw [hrelaxed.instructions, instructions_listing, expansionAt_ofChanges]
  have hlabels : relaxed.labels = body.map (·.1) ++ [bytecode.length] := by
    rw [hrelaxed.labels, labels_listing]
  have hcode : ∀ i wide, Line.code i wide ∈ relaxed → i ∈ body.flatMap (expansion changes) := by
    intro i wide hmem
    rw [← hinstructions]
    exact Listing.mem_instructions.2 ⟨wide, hmem⟩
  have htargets : ∀ i ∈ body.flatMap (expansion changes), ∀ t ∈ i.targets,
      t ∈ body.map (·.1) := by
    intro i hi t ht
    obtain ⟨wide, hmem⟩ := Listing.mem_instructions.1 (hinstructions ▸ hi)
    have hlabel := Listing.mem_labels_of_bytes hbytes i wide hmem t ht
    rw [hlabels, List.mem_append, List.mem_singleton] at hlabel
    rcases hlabel with hlabel | rfl
    · exact hlabel
    · exact absurd ht (hexpansion i hi).2
  have hmoved : Instruction.decode written
      = .ok (Listing.placed relaxed.offsetOf 0 relaxed) :=
    Listing.decode_of_bytes hbytes (fun i wide hmem => (hexpansion i (hcode i wide hmem)).1)
      fun i wide hmem t ht =>
        leads_of_mem hrelaxed hwf hordered (htargets i (hcode i wide hmem) t ht)
  exact ⟨_, _, hmoved, patchedBody_placed hrelaxed hwf hordered htargets⟩

/-- **The body of a patched method.** A patch made by any calls on a body, where the calls put
in well-formed instructions that do not go to its end and replace none by nothing, gives if it
succeeds a body that decodes, namely to the old instructions expanded and moved. The limits of
the frame stay. -/
theorem decode_apply {changes : List CodeChange} {code patched : Code}
    (hwf : ∀ c ∈ changes, c.WellFormed code.bytecode.length)
    (h : (ofChanges changes).apply code = .ok patched) :
    ∃ body moved newOffset, Instruction.decode code.bytecode = .ok body
      ∧ Instruction.decode patched.bytecode = .ok moved
      ∧ PatchedBody changes body moved newOffset
      ∧ patched.maxStack = code.maxStack ∧ patched.maxLocals = code.maxLocals := by
  obtain ⟨body, relaxed, hdecode, hrelax, hbytes, hstack, hlocals, _, _⟩ := apply_eq_ok h
  obtain ⟨moved, newOffset, hmoved, hpatched⟩ := patchedBody_of_relax hwf hdecode hrelax hbytes
  exact ⟨body, moved, newOffset, hdecode, hmoved, hpatched, hstack, hlocals⟩

/-- A jump over an instruction that is replaced by two, to one that two are put in front of. -/
theorem decode_apply_jump :
    let changes : List CodeChange := [.insertBefore 4 [.op 0x00], .replace 3 [.op 0x00, .op 0x00],
      .insertBefore 4 [.op 0x04]]
    let code : Code := { maxStack := 2, maxLocals := 1, bytecode := [0xa7, 0, 4, 0x03, 0xb1] }
    let patched : Code :=
      { maxStack := 2, maxLocals := 1, bytecode := [0xa7, 0, 7, 0x00, 0x00, 0x00, 0x04, 0xb1] }
    (∀ c ∈ changes, c.WellFormed code.bytecode.length)
      ∧ (ofChanges changes).apply code = .ok patched
      ∧ ∃ body moved newOffset, Instruction.decode code.bytecode = .ok body
        ∧ Instruction.decode patched.bytecode = .ok moved
        ∧ PatchedBody changes body moved newOffset
        ∧ patched.maxStack = code.maxStack ∧ patched.maxLocals = code.maxLocals :=
  ⟨by decide, by decide +kernel, decode_apply (by decide) (by decide +kernel)⟩

end CodePatch
end ClassLoom
