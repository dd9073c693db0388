import ClassLoom.CodePatch
import ClassLoom.Proofs.Listing.Layout

/-!
# Bodies as a patch expands them

Of every instruction of the old body a patch makes the instructions that it puts in front of
it, the label of its old offset, and what takes its place. These lines stand in the order of
the old body, and relaxing leaves them there.

* `instructions_listing`, `labels_listing`: what the listing of a patched body holds;
* `split_relaxed`: the lines on both sides of a label, once the listing has been relaxed.
-/

namespace ClassLoom.CodePatch

open Listing (Widened)

/-! ## Expansions

What a patch says of one instruction, as three functions of it: what is put in front, what it
becomes, and both together. -/

section Expansion

variable (patch : CodePatch)

/-- What a patch puts in front of the instruction at `pc`. -/
def insertedAt (pc : Nat) : List Instruction := (patch.editAt pc).before

/-- What a patch makes of the instruction `i` at `pc`. -/
def successorsAt (pc : Nat) (i : Instruction) : List Instruction :=
  (patch.editAt pc).replacement.getD [i]

/-- What the new body has for an instruction. -/
def expansionAt (e : Nat × Instruction) : List Instruction :=
  patch.insertedAt e.1 ++ patch.successorsAt e.1 e.2

/-- The lines for an instruction: what is put in front, its label, and what it becomes. -/
theorem linesAt_eq (pc : Nat) (i : Instruction) :
    patch.linesAt pc i = (patch.insertedAt pc).map (Line.code · false)
      ++ .label pc :: (patch.successorsAt pc i).map (Line.code · false) :=
  rfl

/-! ## Listings

The lines for a body have a label between the two parts, which stands for the old offset. -/

theorem instructions_linesAt (pc : Nat) (i : Instruction) :
    (patch.linesAt pc i).instructions = patch.expansionAt (pc, i) := by
  rw [linesAt_eq, Listing.instructions_append, Listing.instructions_map_code]
  exact congrArg (patch.insertedAt pc ++ ·) (Listing.instructions_map_code _)

theorem labels_linesAt (pc : Nat) (i : Instruction) : (patch.linesAt pc i).labels = [pc] := by
  rw [linesAt_eq, Listing.labels_append, Listing.labels_map_code]
  exact congrArg (pc :: ·) (Listing.labels_map_code _)

/-- The lines for a body, without the label of its end. -/
theorem instructions_flatMap_linesAt (body : List (Nat × Instruction)) :
    Listing.instructions (body.flatMap fun (pc, i) => patch.linesAt pc i)
      = body.flatMap patch.expansionAt := by
  induction body with
  | nil => rfl
  | cons e body ih =>
    rw [List.flatMap_cons, Listing.instructions_append, ih, List.flatMap_cons]
    exact congrArg (· ++ _) (patch.instructions_linesAt e.1 e.2)

/-- The labels for a body are its offsets, in order. -/
theorem labels_flatMap_linesAt (body : List (Nat × Instruction)) :
    Listing.labels (body.flatMap fun (pc, i) => patch.linesAt pc i) = body.map (·.1) := by
  induction body with
  | nil => rfl
  | cons e body ih =>
    rw [List.flatMap_cons, Listing.labels_append, ih, List.map_cons]
    exact congrArg (· ++ _) (patch.labels_linesAt e.1 e.2)

/-- The instructions of a listing are the expansion of the body. -/
theorem instructions_listing (size : Nat) (body : List (Nat × Instruction)) :
    (patch.listing size body).instructions = body.flatMap patch.expansionAt := by
  unfold listing
  rw [Listing.instructions_append, instructions_flatMap_linesAt]
  exact List.append_nil _

/-- Its labels are the offsets of the body and its end. -/
theorem labels_listing (size : Nat) (body : List (Nat × Instruction)) :
    (patch.listing size body).labels = body.map (·.1) ++ [size] := by
  unfold listing
  rw [Listing.labels_append, labels_flatMap_linesAt]
  rfl

/-- All branches of a new listing are still short. -/
theorem narrow_listing (size : Nat) (body : List (Nat × Instruction)) {i : Instruction}
    {wide : Bool} (h : Line.code i wide ∈ patch.listing size body) : wide = false := by
  have hnarrow {is : List Instruction} (h : Line.code i wide ∈ is.map (Line.code · false)) :
      wide = false := by
    obtain ⟨_, _, heq⟩ := List.mem_map.1 h
    cases heq
    rfl
  rcases List.mem_append.1 h with h | h
  · obtain ⟨⟨pc, j⟩, _, h⟩ := List.mem_flatMap.1 h
    simp only [linesAt_eq] at h
    rcases List.mem_append.1 h with h | h
    · exact hnarrow h
    · rcases List.mem_cons.1 h with h | h
      · cases h
      · exact hnarrow h
  · simp at h

end Expansion

/-! ## Relaxed listings

Relaxing widens branches and changes nothing else, so the parts of the listing can be found
again. -/

section Relaxed

variable {patch : CodePatch} {size : Nat} {body front back : List (Nat × Instruction)}
  {pc : Nat} {i : Instruction} {relaxed : Listing}

/-- **Where an old instruction is in a relaxed listing**: its label stands behind what was put in
front of it, and what it became stands directly behind its label. -/
theorem split_relaxed (hrelaxed : (patch.listing size body).Widened relaxed)
    (hlabels : (body.map (·.1) ++ [size]).Pairwise (· < ·))
    (hbody : body = front ++ (pc, i) :: back) :
    ∃ before successors behind, relaxed = before ++ .label pc :: (successors ++ behind)
      ∧ pc ∉ Listing.labels (successors ++ behind)
      ∧ Listing.instructions before = front.flatMap patch.expansionAt ++ patch.insertedAt pc
      ∧ Widened ((patch.successorsAt pc i).map (Line.code · false)) successors
      ∧ Listing.instructions behind = back.flatMap patch.expansionAt := by
  subst hbody
  have hsplit : patch.listing size (front ++ (pc, i) :: back)
      = ((front.flatMap fun (pc, i) => patch.linesAt pc i)
          ++ (patch.insertedAt pc).map (Line.code · false))
        ++ .label pc :: ((patch.successorsAt pc i).map (Line.code · false)
          ++ patch.listing size back) := by
    unfold listing
    rw [List.flatMap_append, List.flatMap_cons]
    simp only [linesAt_eq patch pc i, List.append_assoc, List.cons_append]
  rw [hsplit] at hrelaxed
  obtain ⟨before, after, rfl, hbefore, hafter⟩ := hrelaxed.split
  -- The line behind the first part is the label itself, which relaxing leaves.
  cases hafter with
  | cons hlabel hafter =>
    cases hlabel
    obtain ⟨successors, behind, rfl, hsuccessors, hbehind⟩ := Widened.split hafter
    refine ⟨before, successors, behind, rfl, ?_, ?_, hsuccessors, ?_⟩
    · -- The labels behind it are those of later instructions and of the end.
      rw [Listing.labels_append, hsuccessors.labels, hbehind.labels, Listing.labels_map_code,
        labels_listing, List.nil_append]
      rw [List.map_append, List.map_cons, List.append_assoc, List.cons_append] at hlabels
      have hlater := (List.pairwise_cons.1 (List.pairwise_append.1 hlabels).2.1).1
      exact fun hmem => Nat.lt_irrefl _ (hlater pc hmem)
    · rw [hbefore.instructions, Listing.instructions_append, instructions_flatMap_linesAt,
        Listing.instructions_map_code]
    · rw [hbehind.instructions, instructions_listing]

/-- The end of the old body has its label at the end of a relaxed listing. -/
theorem split_relaxed_end (hrelaxed : (patch.listing size body).Widened relaxed) :
    ∃ before : Listing, relaxed = before ++ [.label size]
      ∧ before.instructions = body.flatMap patch.expansionAt := by
  obtain ⟨before, after, rfl, hbefore, hafter⟩ := hrelaxed.split
  cases hafter with
  | cons hlabel hnil =>
    cases hlabel
    cases hnil
    refine ⟨before, rfl, ?_⟩
    rw [hbefore.instructions, instructions_flatMap_linesAt]

end Relaxed
end ClassLoom.CodePatch
