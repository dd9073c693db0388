import ClassLoom.Proofs.CodePatch.Expansion
import ClassLoom.Proofs.Instruction.WrittenForm

/-!
# Patches from calls

A patch is made by calls, in any number and any order, that replace an instruction or put
instructions in front of one. `CodeChange.inserted` and `CodeChange.successors` say what the
calls make of the instruction at an offset: all insertions there in a row, and then the last
replacement, or the instruction itself. `expansionAt_ofChanges` is the patch's side of it.
-/

namespace ClassLoom

/-- A call that changes a patch. -/
inductive CodeChange where
  | replace (pc : Nat) (instructions : List Instruction)
  | insertBefore (pc : Nat) (instructions : List Instruction)

namespace CodeChange

/-- Makes the call on a patch. -/
def applyTo (patch : CodePatch) : CodeChange → CodePatch
  | replace pc instructions => patch.replace pc instructions
  | insertBefore pc instructions => patch.insertBefore pc instructions

/-- What is put in front of the instruction at `pc`. -/
def inserted (changes : List CodeChange) (pc : Nat) : List Instruction :=
  changes.flatMap fun
    | replace _ _ => []
    | insertBefore pc' instructions => if pc' = pc then instructions else []

/-- What stands at `pc` after one more call, where `kept` stood there before it. -/
def replacedAt (pc : Nat) (kept : List Instruction) : CodeChange → List Instruction
  | replace pc' instructions => if pc' = pc then instructions else kept
  | insertBefore _ _ => kept

/-- What the instruction `i` at `pc` becomes. -/
def successors (changes : List CodeChange) (pc : Nat) (i : Instruction) : List Instruction :=
  changes.foldl (replacedAt pc) [i]

/-- What the new body has for the instruction `i` at `pc`. -/
def expansion (changes : List CodeChange) (entry : Nat × Instruction) : List Instruction :=
  inserted changes entry.1 ++ successors changes entry.1 entry.2

/-- Whether a call is one on a body of `size` bytes: its instructions are well-formed, none of
them goes to the end of the body, and a replacement is not empty. -/
def WellFormed (size : Nat) : CodeChange → Prop
  | replace _ instructions =>
    instructions ≠ [] ∧ ∀ i ∈ instructions, i.WellFormed ∧ size ∉ i.targets
  | insertBefore _ instructions => ∀ i ∈ instructions, i.WellFormed ∧ size ∉ i.targets

instance (size : Nat) : DecidablePred (WellFormed size)
  | replace _ instructions => inferInstanceAs
    (Decidable (instructions ≠ [] ∧ ∀ i ∈ instructions, i.WellFormed ∧ size ∉ i.targets))
  | insertBefore _ instructions =>
    inferInstanceAs (Decidable (∀ i ∈ instructions, i.WellFormed ∧ size ∉ i.targets))

end CodeChange

namespace CodePatch

open CodeChange

/-- The patch that calls on an empty one make. -/
def ofChanges (changes : List CodeChange) : CodePatch := changes.foldl applyTo .empty

/-! ## Edits

A patch keeps one edit for each offset. A call changes the edit at its own offset, so what stands at
an offset in the end can be told from the calls at that offset, in their order. -/

/-- Replacing an instruction is seen at its offset only, and what is inserted there stays. -/
theorem editAt_replace (patch : CodePatch) (pc pc' : Nat) (instructions : List Instruction) :
    (patch.replace pc' instructions).editAt pc =
      if pc' = pc then { patch.editAt pc with replacement := some instructions }
      else patch.editAt pc := by
  unfold editAt replace
  rw [Std.TreeMap.getElem?_insert]
  by_cases h : pc' = pc
  · subst h
    simp [editAt]
  · rw [if_neg (by simpa using h), if_neg h]

/-- Inserting is seen at its offset only, behind what has been inserted there before. -/
theorem editAt_insertBefore (patch : CodePatch) (pc pc' : Nat) (instructions : List Instruction) :
    (patch.insertBefore pc' instructions).editAt pc =
      if pc' = pc then { patch.editAt pc with before := (patch.editAt pc).before ++ instructions }
      else patch.editAt pc := by
  unfold editAt insertBefore
  rw [Std.TreeMap.getElem?_insert]
  by_cases h : pc' = pc
  · subst h
    simp [editAt]
  · rw [if_neg (by simpa using h), if_neg h]

/-- Insertions at an offset stand in a row, in the order of the calls. Replacements in between do
not touch them. -/
theorem before_foldl_applyTo (changes : List CodeChange) (patch : CodePatch) (pc : Nat) :
    ((changes.foldl applyTo patch).editAt pc).before
      = (patch.editAt pc).before ++ inserted changes pc := by
  induction changes generalizing patch with
  | nil => simp [inserted]
  | cons change changes ih =>
    rw [List.foldl_cons, ih]
    cases change with
    | replace pc' instructions =>
      rw [applyTo, editAt_replace]
      split <;> simp [inserted]
    | insertBefore pc' instructions =>
      rw [applyTo, editAt_insertBefore]
      split
      · next h => simp [inserted, h]
      · next h => simp [inserted, h]

/-- The last replacement at an offset counts. Insertions in between do not touch it. -/
theorem replacement_foldl_applyTo (changes : List CodeChange) (patch : CodePatch) (pc : Nat)
    (i : Instruction) :
    ((changes.foldl applyTo patch).editAt pc).replacement.getD [i]
      = changes.foldl (replacedAt pc) ((patch.editAt pc).replacement.getD [i]) := by
  induction changes generalizing patch with
  | nil => rfl
  | cons change changes ih =>
    rw [List.foldl_cons, ih, List.foldl_cons]
    congr 1
    cases change with
    | replace pc' instructions =>
      rw [applyTo, editAt_replace, replacedAt]
      split <;> rfl
    | insertBefore pc' instructions =>
      rw [applyTo, editAt_insertBefore, replacedAt]
      split <;> rfl

theorem insertedAt_ofChanges (changes : List CodeChange) (pc : Nat) :
    (ofChanges changes).insertedAt pc = inserted changes pc :=
  before_foldl_applyTo changes empty pc

theorem successorsAt_ofChanges (changes : List CodeChange) (pc : Nat) (i : Instruction) :
    (ofChanges changes).successorsAt pc i = successors changes pc i :=
  replacement_foldl_applyTo changes empty pc i

/-- **What the new body has for an instruction**: what is inserted, and what it becomes. -/
theorem expansionAt_ofChanges (changes : List CodeChange) :
    (ofChanges changes).expansionAt = expansion changes := by
  funext e
  show (ofChanges changes).insertedAt e.1 ++ (ofChanges changes).successorsAt e.1 e.2 = _
  rw [insertedAt_ofChanges, successorsAt_ofChanges]
  rfl

end CodePatch

/-! ## What well-formed calls give

All instructions of the new body are the old ones or come with a call, and both are well-formed. -/

namespace CodeChange

variable {changes : List CodeChange} {size : Nat}

/-- What is inserted is well-formed and does not go to the end of the body. -/
theorem mem_inserted (hwf : ∀ c ∈ changes, c.WellFormed size) {pc : Nat} {i : Instruction}
    (h : i ∈ inserted changes pc) : i.WellFormed ∧ size ∉ i.targets := by
  obtain ⟨change, hchange, hi⟩ := List.mem_flatMap.1 h
  cases change with
  | replace pc' instructions => cases hi
  | insertBefore pc' instructions =>
    simp only at hi
    split at hi
    · exact hwf _ hchange i hi
    · cases hi

/-- The last of the replacements at an offset counts, if there is one. -/
theorem foldl_replacedAt_cases (changes : List CodeChange) (pc : Nat) (kept : List Instruction) :
    replace pc (changes.foldl (replacedAt pc) kept) ∈ changes
      ∨ (∀ is, replace pc is ∉ changes) ∧ changes.foldl (replacedAt pc) kept = kept := by
  induction changes generalizing kept with
  | nil => exact .inr ⟨fun _ => List.not_mem_nil, rfl⟩
  | cons change changes ih =>
    rw [List.foldl_cons]
    -- The later calls come first in question: one of them may replace once more.
    rcases ih (replacedAt pc kept change) with hmem | ⟨hnone, hfold⟩
    · exact .inl (List.mem_cons_of_mem _ hmem)
    · -- No later change replaces the instruction, so the first one decides.
      rw [hfold]
      cases change with
      | replace pc' instructions =>
        by_cases hpc : pc' = pc
        · subst hpc
          have hreplaced : replacedAt pc' kept (replace pc' instructions) = instructions :=
            if_pos rfl
          rw [hreplaced]
          exact .inl (List.mem_cons_self ..)
        · refine .inr ⟨fun is his => ?_, if_neg hpc⟩
          rcases List.mem_cons.1 his with hhead | hrest
          · cases hhead
            exact hpc rfl
          · exact hnone is hrest
      | insertBefore pc' instructions =>
        refine .inr ⟨fun is his => ?_, rfl⟩
        rcases List.mem_cons.1 his with hhead | hrest
        · cases hhead
        · exact hnone is hrest

/-- An instruction becomes a replacement at its offset, or stays as it is where there is none. -/
theorem successors_cases (changes : List CodeChange) (pc : Nat) (i : Instruction) :
    replace pc (successors changes pc i) ∈ changes
      ∨ (∀ is, replace pc is ∉ changes) ∧ successors changes pc i = [i] :=
  foldl_replacedAt_cases changes pc [i]

/-- Something stands for every instruction. -/
theorem successors_ne_nil (hwf : ∀ c ∈ changes, c.WellFormed size) (pc : Nat) (i : Instruction) :
    successors changes pc i ≠ [] := by
  rcases successors_cases changes pc i with hmem | ⟨_, hkept⟩
  · exact (hwf _ hmem).1
  · rw [hkept]
    exact List.cons_ne_nil _ _

/-- What an instruction becomes is well-formed and does not go to the end of the body. -/
theorem mem_successors (hwf : ∀ c ∈ changes, c.WellFormed size) {pc : Nat} {i j : Instruction}
    (hi : i.WellFormed ∧ size ∉ i.targets) (h : j ∈ successors changes pc i) :
    j.WellFormed ∧ size ∉ j.targets := by
  rcases successors_cases changes pc i with hmem | ⟨_, hkept⟩
  · exact (hwf _ hmem).2 j h
  · rw [hkept, List.mem_singleton] at h
    rwa [h]

theorem mem_expansion (hwf : ∀ c ∈ changes, c.WellFormed size) {entry : Nat × Instruction}
    (hentry : entry.2.WellFormed ∧ size ∉ entry.2.targets) {j : Instruction}
    (h : j ∈ expansion changes entry) : j.WellFormed ∧ size ∉ j.targets := by
  rcases List.mem_append.1 h with h | h
  · exact mem_inserted hwf h
  · exact mem_successors hwf hentry h

end CodeChange
end ClassLoom
