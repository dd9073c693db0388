import ClassLoom.Proofs.Typing.Passes

/-!
# Bodies that check against their frames

The type checker asks, of a body and a table of frames, that every frame accepts every state
that control can bring to it: that of the instruction before, those of jumps, and the locals at
all instructions that a handler protects (`Checked`). These are the tables that a pass leaves as
they are.

* `run_eq_self_iff`: a pass leaves a table as it is exactly if the body checks against it.
-/

namespace ClassLoom.Typing

/-! ## Frames that accept states

Passes end when one changes nothing. What this means is that every merge on the way leaves its frame
alone, and a merge does so exactly if the frame takes the state. Here this is said of slots, states,
tables and rows of merges. -/

/-- Whether slots take values, each its own. -/
def SlotType.Accepts (h : Hierarchy) (slots values : List SlotType) : Prop :=
  List.Forall₂ (fun slot value => isAssignable h value slot = true) slots values

/-- Slots stay under widening exactly if they take their values. A slot that takes its value is not
changed by it. -/
theorem SlotType.zipWith_widen_eq_self_iff {h : Hierarchy} {slots values : List SlotType}
    (hlength : slots.length = values.length) :
    List.zipWith (widen h) slots values = slots ↔ Accepts h slots values := by
  unfold Accepts
  induction slots generalizing values with
  | nil =>
    cases values with
    | nil => simp
    | cons v values => cases hlength
  | cons s slots ih =>
    cases values with
    | nil => cases hlength
    | cons v values =>
      rw [List.zipWith_cons_cons, List.cons_eq_cons, List.forall₂_cons, widen_eq_self_iff,
        ih (Nat.succ.inj hlength)]

namespace MachineState

variable {h : Hierarchy}

/-- Whether a frame takes a state. -/
structure Accepts (h : Hierarchy) (frame incoming : MachineState) : Prop where
  locals : SlotType.Accepts h frame.locals incoming.locals
  stack : SlotType.Accepts h frame.stack incoming.stack

/-- So do locals under a merge. The stack of the frame is not asked for. -/
theorem mergeLocals_eq_self_iff {slots values : List SlotType} :
    mergeLocals h slots values = .ok slots ↔ SlotType.Accepts h slots values := by
  rw [mergeLocals_eq_ok]
  constructor
  · rintro ⟨hlength, hsame⟩
    exact (SlotType.zipWith_widen_eq_self_iff hlength).1 hsame.symm
  · intro haccepts
    have hlength := haccepts.length_eq
    exact ⟨hlength, ((SlotType.zipWith_widen_eq_self_iff hlength).2 haccepts).symm⟩

/-- So does a stack. No slot can lose its type then. -/
theorem mergeStack_eq_self_iff {slots values : List SlotType} :
    mergeStack h slots values = .ok slots ↔ SlotType.Accepts h slots values := by
  rw [mergeStack_eq_ok]
  constructor
  · rintro ⟨hlength, hsame, _⟩
    exact (SlotType.zipWith_widen_eq_self_iff hlength).1 hsame.symm
  · intro haccepts
    have hlength := haccepts.length_eq
    exact ⟨hlength, ((SlotType.zipWith_widen_eq_self_iff hlength).2 haccepts).symm,
      List.forall₂_same.2 fun _ _ htop => htop⟩

/-- A frame takes a state exactly if a merge leaves the frame as it is. Locals and stack are merged
apart from each other. -/
theorem merge_eq_self_iff {frame incoming : MachineState} :
    frame.merge h incoming = .ok frame ↔ Accepts h frame incoming := by
  constructor
  · intro hmerge
    obtain ⟨locals, hlocals, hmerge⟩ := bind_eq_ok.1 hmerge
    obtain ⟨stack, hstack, hend⟩ := bind_eq_ok.1 hmerge
    obtain rfl := Except.ok.inj hend
    exact ⟨mergeLocals_eq_self_iff.1 hlocals, mergeStack_eq_self_iff.1 hstack⟩
  · rintro ⟨hlocals, hstack⟩
    have hlocals := mergeLocals_eq_self_iff.2 hlocals
    have hstack := mergeStack_eq_self_iff.2 hstack
    exact bind_eq_ok.2 ⟨frame.locals, hlocals, bind_eq_ok.2 ⟨frame.stack, hstack, rfl⟩⟩

end MachineState

namespace FrameTable

variable {h : Hierarchy} {table : FrameTable} {pc : Nat}

/-- Whether there is a frame at an offset that takes a state. -/
def Accepts (h : Hierarchy) (table : FrameTable) (pc : Nat) (incoming : MachineState) : Prop :=
  ∃ frame, table.lookup pc = some frame ∧ MachineState.Accepts h frame incoming

/-- Whether there is a frame at an offset that takes the locals of a state. -/
def AcceptsLocals (h : Hierarchy) (table : FrameTable) (pc : Nat) (incoming : MachineState) :
    Prop :=
  ∃ frame, table.lookup pc = some frame ∧ SlotType.Accepts h frame.locals incoming.locals

/-- A frame that is set anew leaves the table alone if it is the one that was there. No two frames
are at one offset, so no other one is hidden. -/
theorem set_eq_self_iff {frame new : MachineState} (hnodup : (table.map (·.1)).Nodup)
    (hlookup : table.lookup pc = some frame) : table.set pc new = table ↔ new = frame := by
  constructor
  · intro hsame
    have hset := lookup_set table pc pc new
    rw [hsame, hlookup, if_pos rfl, Option.map_some, Option.some.injEq] at hset
    exact hset.symm
  · rintro rfl
    refine (List.map_congr_left ?_).trans (List.map_id table)
    rintro ⟨offset, state⟩ hmem
    by_cases hhere : offset = pc
    · have hfound := lookup_of_mem hnodup hmem
      rw [hhere, hlookup, Option.some.injEq] at hfound
      simp only [hhere, if_true, hfound, id]
    · simp only [if_neg hhere, id]

/-- The same of a frame that is changed by what it was. A table without the frame cannot be left
alone, for then changing it fails. -/
theorem modify_eq_self_iff {f : MachineState → Except ClassError MachineState}
    (hnodup : (table.map (·.1)).Nodup) :
    table.modify pc f = .ok table
      ↔ ∃ frame, table.lookup pc = some frame ∧ f frame = .ok frame := by
  unfold modify
  cases hlookup : table.lookup pc with
  | none =>
    constructor
    · intro hmodify
      cases hmodify
    · rintro ⟨frame, habsurd, _⟩
      cases habsurd
  | some frame =>
    -- Setting a frame gives the same table only if the frame is the same, since offsets are
    -- distinct.
    simp only [Option.some.injEq, exists_eq_left']
    rw [bind_eq_ok]
    constructor
    · rintro ⟨new, hnew, hend⟩
      obtain rfl := (set_eq_self_iff hnodup hlookup).1 (Except.ok.inj hend)
      exact hnew
    · intro hsame
      refine ⟨frame, hsame, ?_⟩
      rw [(set_eq_self_iff hnodup hlookup).2 rfl]
      rfl

/-- Merging into the frame at an offset changes nothing exactly if there is one that takes the
state. -/
theorem merge_eq_self_iff {incoming : MachineState} (hnodup : (table.map (·.1)).Nodup) :
    table.merge h pc incoming = .ok table ↔ Accepts h table pc incoming := by
  unfold merge Accepts
  rw [modify_eq_self_iff hnodup]
  simp only [MachineState.merge_eq_self_iff]

/-- The same where only the locals are merged. -/
theorem mergeLocals_eq_self_iff {incoming : MachineState} (hnodup : (table.map (·.1)).Nodup) :
    table.mergeLocals h pc incoming = .ok table ↔ AcceptsLocals h table pc incoming := by
  unfold mergeLocals AcceptsLocals
  rw [modify_eq_self_iff hnodup]
  refine exists_congr fun frame => and_congr_right fun _ => ?_
  rw [← MachineState.mergeLocals_eq_self_iff, bind_eq_ok]
  constructor
  · rintro ⟨locals, hlocals, hend⟩
    rw [← Except.ok.inj hend] at hlocals ⊢
    exact hlocals
  · intro hlocals
    exact ⟨frame.locals, hlocals, rfl⟩

end FrameTable

namespace Pass

section Checked

variable {setting : Setting} {handlers : List ExceptionHandler} {table : FrameTable}

/-- Merges one after the other leave a table as it is exactly if each does. That none undoes what
another has done is since each only widens. -/
theorem foldlM_eq_self_iff {h : Hierarchy} {α : Type}
    {f : FrameTable → α → Except ClassError FrameTable} {xs : List α}
    (hf : ∀ t x t', (t.map (·.1)).Nodup → f t x = .ok t' → FrameTable.Moved h t t')
    (hnodup : (table.map (·.1)).Nodup) :
    xs.foldlM f table = .ok table ↔ ∀ x ∈ xs, f table x = .ok table := by
  induction xs with
  | nil =>
    constructor
    · intro _ x hx
      cases hx
    · intro _
      rfl
  | cons x xs ih =>
    rw [List.foldlM_cons, bind_eq_ok, List.forall_mem_cons]
    constructor
    · rintro ⟨next, hnext, hrest⟩
      -- Both parts move the table up, and together they do not move it.
      have hmoved := hf _ _ _ hnodup hnext
      obtain rfl := hmoved.antisymm (foldlM_moved hf (hmoved.nodup hnodup) hrest)
      exact ⟨hnext, ih.1 hrest⟩
    · rintro ⟨hhead, hrest⟩
      exact ⟨table, hhead, ih.2 hrest⟩

/-- Handlers take the locals of a state exactly if each of them does. -/
theorem protect_eq_self_iff {h : Hierarchy} {targets : List Nat} {state : MachineState}
    (hnodup : (table.map (·.1)).Nodup) :
    protect h targets state table = .ok table
      ↔ ∀ target ∈ targets, table.AcceptsLocals h target state := by
  unfold protect
  rw [foldlM_eq_self_iff (fun _ _ _ ht => FrameTable.moved_of_mergeLocals ht) hnodup]
  simp only [FrameTable.mergeLocals_eq_self_iff hnodup]

/-- Targets take a state exactly if each of them does. -/
theorem mergeAll_eq_self_iff {h : Hierarchy} {targets : List Nat} {state : MachineState}
    (hnodup : (table.map (·.1)).Nodup) :
    targets.foldlM (fun t pc => t.merge h pc state) table = .ok table
      ↔ ∀ target ∈ targets, table.Accepts h target state := by
  rw [foldlM_eq_self_iff (fun _ _ _ ht => FrameTable.moved_of_merge ht) hnodup]
  simp only [FrameTable.merge_eq_self_iff hnodup]

/-! ## Checked bodies

A pass that changes nothing is a run of the type checker. `Checked` is that checker in the form of
the format's own rules, with no merging in it: each instruction finds a state that fits, and leaves
one that is taken wherever control goes. -/

/-- How control comes to an offset: the state behind the instruction before, if control goes on
from there, and the state in front of the next one, if control can arrive. -/
inductive Arrives (h : Hierarchy) (table : FrameTable) (pc : Nat) :
    Option MachineState → Option MachineState → Prop
  | through {state : Option MachineState} (hno : table.lookup pc = none) :
      Arrives h table pc state state
  | enter {frame : MachineState} (hframe : table.lookup pc = some frame) :
      Arrives h table pc none (some frame)
  | join {frame incoming : MachineState} (hframe : table.lookup pc = some frame)
      (haccepts : MachineState.Accepts h frame incoming) :
      Arrives h table pc (some incoming) (some frame)

/-- What the type checker asks of one instruction, which turns the state `current` into
`left`. -/
structure Fits (setting : Setting) (handlers : List ExceptionHandler) (table : FrameTable)
    (pc : Nat) (i : Instruction) (current left : MachineState) : Prop where
  step : step setting.pool setting.method pc i current = .ok ((), left)
  entered : ∀ target ∈ handlersOf handlers pc, table.AcceptsLocals setting.hierarchy target current
  stored : i.isStore = true →
    ∀ target ∈ handlersOf handlers pc, table.AcceptsLocals setting.hierarchy target left
  jumps : ∀ target ∈ i.targets, table.Accepts setting.hierarchy target left

/-- Whether instructions check against a table of frames, behind an instruction that leaves the
given state. -/
inductive Checked (setting : Setting) (handlers : List ExceptionHandler) (table : FrameTable) :
    Option MachineState → List (Nat × Instruction) → Prop
  | done {state : Option MachineState} : Checked setting handlers table state []
  | unreachable {state : Option MachineState} {pc : Nat} {i : Instruction}
      {rest : List (Nat × Instruction)} (harrives : Arrives setting.hierarchy table pc state none)
      (hrest : Checked setting handlers table none rest) :
      Checked setting handlers table state ((pc, i) :: rest)
  | instruction {state : Option MachineState} {pc : Nat} {i : Instruction}
      {rest : List (Nat × Instruction)} {current left : MachineState}
      (harrives : Arrives setting.hierarchy table pc state (some current))
      (hfits : Fits setting handlers table pc i current left)
      (hrest : Checked setting handlers table
        (if Opcode.endsBlock i.opcode then none else some left) rest) :
      Checked setting handlers table state ((pc, i) :: rest)

/-- How control comes to an offset without a change to the table: the cases are whether there is a
frame, and whether control comes from the instruction before. -/
theorem arrive_eq_self_iff {h : Hierarchy} {pc : Nat} {state state' : Option MachineState}
    (hnodup : (table.map (·.1)).Nodup) :
    arrive h pc { table, state } = .ok { table, state := state' }
      ↔ Arrives h table pc state state' := by
  -- By whether a frame is declared at the offset, and whether control comes from in front of it.
  unfold arrive
  cases hlookup : table.lookup pc with
  | none =>
    constructor
    · intro harrive
      cases harrive
      exact .through hlookup
    · intro harrives
      cases harrives with
      | through => rfl
      | enter hframe => cases hlookup.symm.trans hframe
      | join hframe => cases hlookup.symm.trans hframe
  | some frame =>
    cases state with
    | none =>
      constructor
      · intro harrive
        cases harrive
        exact .enter hlookup
      · intro harrives
        cases harrives with
        | through hno => cases hlookup.symm.trans hno
        | enter hframe =>
          cases hlookup.symm.trans hframe
          rfl
    | some incoming =>
      constructor
      · intro harrive
        obtain ⟨merged, hmerged, hend⟩ := bind_eq_ok.1 harrive
        obtain ⟨hset, rfl⟩ := Flow.mk.inj (Except.ok.inj hend)
        obtain rfl := (FrameTable.set_eq_self_iff hnodup hlookup).1 hset
        exact .join hlookup (MachineState.merge_eq_self_iff.1 hmerged)
      · intro harrives
        cases harrives with
        | through hno => cases hlookup.symm.trans hno
        | join hframe haccepts =>
          cases hlookup.symm.trans hframe
          refine bind_eq_ok.2 ⟨frame, MachineState.merge_eq_self_iff.2 haccepts, ?_⟩
          rw [(FrameTable.set_eq_self_iff hnodup hlookup).2 rfl]
          rfl

/-- Going through an instruction leaves a table as it is exactly if the instruction fits it. The
merges of a visit are taken apart; each has to leave the table alone. -/
theorem visit_eq_self_iff {state state' : Option MachineState} {pc : Nat} {i : Instruction}
    (hnodup : (table.map (·.1)).Nodup) :
    visit setting handlers { table, state } (pc, i) = .ok { table, state := state' }
      ↔ (Arrives setting.hierarchy table pc state none ∧ state' = none)
        ∨ ∃ current left, Arrives setting.hierarchy table pc state (some current)
          ∧ Fits setting handlers table pc i current left
          ∧ state' = if Opcode.endsBlock i.opcode then none else some left := by
  rw [visit_eq_ok]
  constructor
  · rintro ⟨⟨reached, arrivedState⟩, harrive, ⟨hnone, hsame⟩ |
      ⟨current, left, shielded, hcurrent, hprotect, hstep, hleave⟩⟩
    · cases hnone
      obtain ⟨rfl, rfl⟩ := Flow.mk.inj hsame
      exact .inl ⟨(arrive_eq_self_iff hnodup).1 harrive, rfl⟩
    · cases hcurrent
      -- Every table on the way has moved from the one before, and the last is the first one again.
      have harrived := arrive_moved harrive hnodup
      have hshielded := protect_moved (harrived.nodup hnodup) hprotect
      have hleft := leave_moved (hshielded.nodup (harrived.nodup hnodup)) hleave
      obtain rfl := harrived.antisymm (hshielded.trans hleft)
      obtain rfl := hshielded.antisymm hleft
      obtain ⟨stored, hstore, merged, hmerge, hsame⟩ := leave_eq_ok.1 hleave
      obtain ⟨rfl, rfl⟩ := Flow.mk.inj hsame
      have hstored : FrameTable.Moved setting.hierarchy table stored := by
        split at hstore
        · exact protect_moved hnodup hstore
        · cases hstore
          exact .refl _
      obtain rfl := hstored.antisymm (mergeAll_moved (hstored.nodup hnodup) hmerge)
      refine .inr ⟨current, left, (arrive_eq_self_iff hnodup).1 harrive, ?_, rfl⟩
      refine ⟨hstep, (protect_eq_self_iff hnodup).1 hprotect, fun hstores => ?_,
        (mergeAll_eq_self_iff hnodup).1 hmerge⟩
      rw [if_pos hstores] at hstore
      exact (protect_eq_self_iff hnodup).1 hstore
  · rintro (⟨harrives, rfl⟩ | ⟨current, left, harrives, hfits, rfl⟩)
    · exact ⟨_, (arrive_eq_self_iff hnodup).2 harrives, .inl ⟨rfl, rfl⟩⟩
    · refine ⟨_, (arrive_eq_self_iff hnodup).2 harrives, .inr ⟨current, left, table, rfl, ?_⟩⟩
      refine ⟨(protect_eq_self_iff hnodup).2 hfits.entered, hfits.step, ?_⟩
      refine leave_eq_ok.2 ⟨table, ?_, table, (mergeAll_eq_self_iff hnodup).2 hfits.jumps, rfl⟩
      split
      · next hstores => exact (protect_eq_self_iff hnodup).2 (hfits.stored hstores)
      · rfl

/-- The same of several instructions, with the state that the one before has left. What is changed
on the way cannot be changed back. -/
theorem visitAll_eq_self_iff {instructions : List (Nat × Instruction)}
    {state : Option MachineState} (hnodup : (table.map (·.1)).Nodup) :
    (∃ last, instructions.foldlM (visit setting handlers) { table, state }
        = .ok { table, state := last })
      ↔ Checked setting handlers table state instructions := by
  induction instructions generalizing state with
  | nil => exact ⟨fun _ => .done, fun _ => ⟨state, rfl⟩⟩
  | cons entry instructions ih =>
    obtain ⟨pc, i⟩ := entry
    constructor
    · rintro ⟨last, hvisits⟩
      rw [List.foldlM_cons] at hvisits
      obtain ⟨⟨mid, state'⟩, hvisit, hrest⟩ := bind_eq_ok.1 hvisits
      -- The table in between lies between two equal ones, so it is the same.
      have hmoved := visit_moved hvisit hnodup
      have hback := visitAll_moved hrest (hmoved.nodup hnodup)
      obtain rfl := hmoved.antisymm hback
      have hchecked := ih.1 ⟨last, hrest⟩
      rcases (visit_eq_self_iff hnodup).1 hvisit with
        ⟨harrives, rfl⟩ | ⟨current, left, harrives, hfits, rfl⟩
      · exact .unreachable harrives hchecked
      · exact .instruction harrives hfits hchecked
    · intro hchecked
      cases hchecked with
      | unreachable harrives hrest =>
        obtain ⟨last, hvisits⟩ := ih.2 hrest
        have hvisit : visit setting handlers { table, state } (pc, i)
            = .ok { table, state := none } :=
          (visit_eq_self_iff hnodup).2 (.inl ⟨harrives, rfl⟩)
        exact ⟨last, bind_eq_ok.2 ⟨_, hvisit, hvisits⟩⟩
      | instruction harrives hfits hrest =>
        obtain ⟨last, hvisits⟩ := ih.2 hrest
        have hvisit := (visit_eq_self_iff hnodup).2 (.inr ⟨_, _, harrives, hfits, rfl⟩)
        exact ⟨last, bind_eq_ok.2 ⟨_, hvisit, hvisits⟩⟩

/-- **A pass leaves a table as it is exactly if the body checks against it.** -/
theorem run_eq_self_iff {instructions : List (Nat × Instruction)} {start : MachineState}
    (hnodup : (table.map (·.1)).Nodup) :
    run setting handlers instructions start table = .ok table
      ↔ Checked setting handlers table (some start) instructions := by
  rw [run_eq_ok]
  exact visitAll_eq_self_iff hnodup

end Checked
end Pass
end ClassLoom.Typing
