import ClassLoom.Proofs.Typing.Moves
import ClassLoom.Typing.Pass

/-!
# Passes come to an end

All that a pass does to a table of frames is to merge states into its frames, so a pass is a row
of moves, and slots can move only so often. The number of passes that `settle` allows is enough,
whatever the hierarchy says.

* `visit_moved`, `run_moved`: one instruction, and a whole pass;
* `settle_run`: what the passes settle on is not changed by one more.
-/

namespace ClassLoom.Typing.Pass

section Moved

variable {setting : Setting} {handlers : List ExceptionHandler} {table next : FrameTable}

/-- Merges one after the other are a row of moves if each is. -/
theorem foldlM_moved {h : Hierarchy} {α : Type} {f : FrameTable → α → Except ClassError FrameTable}
    {xs : List α}
    (hf : ∀ t x t', (t.map (·.1)).Nodup → f t x = .ok t' → FrameTable.Moved h t t')
    (hnodup : (table.map (·.1)).Nodup) (hfold : xs.foldlM f table = .ok next) :
    FrameTable.Moved h table next :=
  foldlM_induction (P := FrameTable.Moved h table) hfold (.refl table)
    fun t x _ t' ht hstep => ht.trans (hf t x t' (ht.nodup hnodup) hstep)

/-- Where control arrives, the frame takes in the state, or gives it where control has come from
elsewhere. -/
theorem arrive_moved {h : Hierarchy} {pc : Nat} {flow after : Flow}
    (harrive : arrive h pc flow = .ok after) (hnodup : (flow.table.map (·.1)).Nodup) :
    FrameTable.Moved h flow.table after.table := by
  unfold arrive at harrive
  split at harrive
  · cases harrive
    exact .refl _
  · cases harrive
    exact .refl _
  · next frame incoming hlookup _ =>
    obtain ⟨merged, hmerged, hend⟩ := bind_eq_ok.1 harrive
    cases hend
    exact FrameTable.moved_set hnodup hlookup (MachineState.moved_of_merge hmerged)

theorem protect_moved {h : Hierarchy} {targets : List Nat} {state : MachineState}
    (hnodup : (table.map (·.1)).Nodup) (hprotect : protect h targets state table = .ok next) :
    FrameTable.Moved h table next :=
  foldlM_moved (fun _ _ _ ht => FrameTable.moved_of_mergeLocals ht) hnodup hprotect

/-- The targets of a jump take in the state in front of it. -/
theorem mergeAll_moved {h : Hierarchy} {targets : List Nat} {state : MachineState}
    (hnodup : (table.map (·.1)).Nodup)
    (hmerge : targets.foldlM (fun t pc => t.merge h pc state) table = .ok next) :
    FrameTable.Moved h table next :=
  foldlM_moved (fun _ _ _ ht => FrameTable.moved_of_merge ht) hnodup hmerge

/-- The part of `visit` behind the step of an instruction that leaves the state `left`. -/
def leave (setting : Setting) (handlers : List ExceptionHandler) (pc : Nat) (i : Instruction)
    (left : MachineState) (table : FrameTable) : Except ClassError Flow :=
  (if i.isStore then protect setting.hierarchy (handlersOf handlers pc) left table
    else .ok table) >>= fun stored =>
  i.targets.foldlM (fun t pc => t.merge setting.hierarchy pc left) stored >>= fun merged =>
  .ok { table := merged, state := if Opcode.endsBlock i.opcode then none else some left }

/-- Going through an instruction in two parts: what happens up to its step, and what the state
behind it goes into. -/
theorem visit_eq (flow : Flow) (pc : Nat) (i : Instruction) :
    visit setting handlers flow (pc, i) = (do
      let arrived ← arrive setting.hierarchy pc flow
      match arrived.state with
      | none => return arrived
      | some current =>
        let shielded ← protect setting.hierarchy (handlersOf handlers pc) current arrived.table
        let ((), left) ← step setting.pool setting.method pc i current
        leave setting handlers pc i left shielded) := by
  unfold visit leave
  simp only
  cases i.isStore <;> rfl

/-- The tables behind an instruction's step, one after the other: first the targets of a jump, then
the handlers of a store. -/
theorem leave_eq_ok {pc : Nat} {i : Instruction} {left : MachineState} {after : Flow} :
    leave setting handlers pc i left table = .ok after
      ↔ ∃ stored,
        (if i.isStore then protect setting.hierarchy (handlersOf handlers pc) left table
          else .ok table) = .ok stored
        ∧ ∃ merged, i.targets.foldlM (fun t pc => t.merge setting.hierarchy pc left) stored
            = .ok merged
          ∧ after = { table := merged,
                      state := if Opcode.endsBlock i.opcode then none else some left } := by
  unfold leave
  rw [bind_eq_ok]
  refine exists_congr fun stored => and_congr_right fun _ => ?_
  rw [bind_eq_ok]
  refine exists_congr fun merged => and_congr_right fun _ => ?_
  rw [Except.ok.injEq, eq_comm]

/-- What the state behind an instruction goes into is a row of moves as well. -/
theorem leave_moved {pc : Nat} {i : Instruction} {left : MachineState} {after : Flow}
    (hnodup : (table.map (·.1)).Nodup)
    (hleave : leave setting handlers pc i left table = .ok after) :
    FrameTable.Moved setting.hierarchy table after.table := by
  obtain ⟨stored, hstore, merged, hmerge, rfl⟩ := leave_eq_ok.1 hleave
  have hstored : FrameTable.Moved setting.hierarchy table stored := by
    split at hstore
    · exact protect_moved hnodup hstore
    · cases hstore
      exact .refl _
  exact hstored.trans (mergeAll_moved (hstored.nodup hnodup) hmerge)

/-- What going through an instruction comes to: nothing where control cannot arrive, and else
the handlers, the step and what follows it. -/
theorem visit_eq_ok {flow after : Flow} {pc : Nat} {i : Instruction} :
    visit setting handlers flow (pc, i) = .ok after
      ↔ ∃ arrived, arrive setting.hierarchy pc flow = .ok arrived
        ∧ ((arrived.state = none ∧ after = arrived)
          ∨ ∃ current left shielded, arrived.state = some current
            ∧ protect setting.hierarchy (handlersOf handlers pc) current arrived.table = .ok shielded
            ∧ step setting.pool setting.method pc i current = .ok ((), left)
            ∧ leave setting handlers pc i left shielded = .ok after) := by
  rw [visit_eq, bind_eq_ok]
  refine exists_congr fun arrived => and_congr_right fun _ => ?_
  obtain ⟨reached, state⟩ := arrived
  -- Without a state the instruction is passed over; with one, each side of the equivalence runs the
  -- same three steps.
  cases state with
  | none =>
    constructor
    · intro hvisit
      cases hvisit
      exact .inl ⟨rfl, rfl⟩
    · rintro (⟨_, rfl⟩ | ⟨current, left, shielded, habsurd, _⟩)
      · rfl
      · cases habsurd
  | some current =>
    constructor
    · intro hvisit
      obtain ⟨shielded, hprotect, hvisit⟩ := bind_eq_ok.1 hvisit
      obtain ⟨⟨⟨⟩, left⟩, hstep, hleave⟩ := bind_eq_ok.1 hvisit
      exact .inr ⟨current, left, shielded, rfl, hprotect, hstep, hleave⟩
    · rintro (⟨habsurd, _⟩ | ⟨current, left, shielded, hcurrent, hprotect, hstep, hleave⟩)
      · cases habsurd
      · cases hcurrent
        exact bind_eq_ok.2 ⟨shielded, hprotect, bind_eq_ok.2 ⟨((), left), hstep, hleave⟩⟩

/-- Going through an instruction is a row of moves. Every merge on the way is one, and nothing else
changes the table. -/
theorem visit_moved {flow after : Flow} {entry : Nat × Instruction}
    (hvisit : visit setting handlers flow entry = .ok after)
    (hnodup : (flow.table.map (·.1)).Nodup) :
    FrameTable.Moved setting.hierarchy flow.table after.table := by
  obtain ⟨pc, i⟩ := entry
  obtain ⟨arrived, harrive, ⟨_, rfl⟩ | ⟨current, left, shielded, _, hprotect, _, hleave⟩⟩ :=
    visit_eq_ok.1 hvisit
  · exact arrive_moved harrive hnodup
  · have harrived := arrive_moved harrive hnodup
    have hshielded := protect_moved (harrived.nodup hnodup) hprotect
    have hleft := leave_moved (hshielded.nodup (harrived.nodup hnodup)) hleave
    exact harrived.trans (hshielded.trans hleft)

/-- Going through instructions is a row of moves. -/
theorem visitAll_moved {instructions : List (Nat × Instruction)} {flow after : Flow}
    (hvisit : instructions.foldlM (visit setting handlers) flow = .ok after)
    (hnodup : (flow.table.map (·.1)).Nodup) :
    FrameTable.Moved setting.hierarchy flow.table after.table :=
  foldlM_induction (P := fun f : Flow => FrameTable.Moved setting.hierarchy flow.table f.table)
    hvisit (.refl _) fun _ _ _ _ hf hstep => hf.trans (visit_moved hstep (hf.nodup hnodup))

/-- A pass fails where one of its instructions does, and gives the table that the last of them
leaves. -/
theorem run_eq_ok {instructions : List (Nat × Instruction)} {start : MachineState} :
    run setting handlers instructions start table = .ok next
      ↔ ∃ state, instructions.foldlM (visit setting handlers) { table, state := some start }
        = .ok { table := next, state } := by
  unfold run
  rw [bind_eq_ok]
  constructor
  · rintro ⟨flow, hflow, hend⟩
    cases hend
    exact ⟨flow.state, hflow⟩
  · rintro ⟨state, hflow⟩
    exact ⟨_, hflow, rfl⟩

/-- **A pass is a row of moves.** -/
theorem run_moved {instructions : List (Nat × Instruction)} {start : MachineState}
    (hnodup : (table.map (·.1)).Nodup)
    (hrun : run setting handlers instructions start table = .ok next) :
    FrameTable.Moved setting.hierarchy table next := by
  obtain ⟨state, hvisit⟩ := run_eq_ok.1 hrun
  exact visitAll_moved hvisit hnodup

end Moved

/-! ## Settling

Whether the passes come to an end is a question about the table alone: each move lowers a measure of
it, whatever the instructions and the hierarchy are. That makes the bound on the number of passes
one about frames. -/

section Settle

variable {pass : FrameTable → Except ClassError FrameTable} {table settled : FrameTable}

theorem settleFor_succ (n : Nat) (table : FrameTable) :
    settleFor pass (n + 1) table = (do
      let next ← pass table
      if next = table then return table else settleFor pass n next) := rfl

/-- A table that a pass does not change is settled. -/
theorem settle_of_fixed (hfixed : pass table = .ok table) : settle pass table = .ok table := by
  unfold settle
  rw [settleFor_succ, hfixed]
  show (if table = table then Except.ok table else _) = .ok table
  rw [if_pos rfl]

/-- Whether so many passes in a row, each of which changes something, lead from a table to
another one. -/
inductive Repeated (pass : FrameTable → Except ClassError FrameTable) :
    Nat → FrameTable → FrameTable → Prop where
  | none (table : FrameTable) : Repeated pass 0 table table
  | again {n : Nat} {table next last : FrameTable} (hpass : pass table = .ok next)
      (hchange : next ≠ table) (hrest : Repeated pass n next last) : Repeated pass (n + 1) table last

/-- Passes that lower a measure of the table while they change it come to an end, a pass that fails
or changes nothing, within as many passes as the measure says. Any larger number of passes that is
allowed gives the same. -/
theorem exists_last (P : FrameTable → Prop) (rank : FrameTable → Nat)
    (hpass : ∀ t t', P t → pass t = .ok t' → P t' ∧ (t' = t ∨ rank t' < rank t))
    (htable : P table) :
    ∃ n ≤ rank table, ∃ last, Repeated pass n table last ∧ P last
      ∧ (pass last = .ok last ∨ ∃ e, pass last = .error e)
      ∧ ∀ passes, n < passes → settleFor pass passes table = pass last := by
  -- On the measure of the table, which the next pass lowers or leaves with the table.
  induction hrank : rank table using Nat.strong_induction_on generalizing table with
  | _ r ih =>
    subst hrank
    -- At the end, more passes give what one more gives.
    have hstays (hend : pass table = .ok table ∨ ∃ e, pass table = .error e) (passes : Nat)
        (hlt : 0 < passes) : settleFor pass passes table = pass table := by
      obtain ⟨k, rfl⟩ := Nat.exists_eq_succ_of_ne_zero (Nat.ne_of_gt hlt)
      rw [settleFor_succ]
      rcases hend with hsame | ⟨e, hfail⟩
      · rw [hsame]
        exact if_pos rfl
      · rw [hfail]
        rfl
    cases hnext : pass table with
    | error e =>
      have hend : pass table = .ok table ∨ ∃ e, pass table = .error e := .inr ⟨e, hnext⟩
      exact ⟨0, Nat.zero_le _, table, .none table, htable, hend, hstays hend⟩
    | ok next =>
      by_cases hsame : next = table
      · have hend : pass table = .ok table ∨ ∃ e, pass table = .error e := by
          rw [hnext, hsame]
          exact .inl rfl
        exact ⟨0, Nat.zero_le _, table, .none table, htable, hend, hstays hend⟩
      · obtain ⟨hkept, hstill | hlt⟩ := hpass table next htable hnext
        · exact absurd hstill hsame
        obtain ⟨n, hn, last, hrepeated, hlast, hend, hsettle⟩ := ih (rank next) hlt hkept rfl
        refine ⟨n + 1, by omega, last, .again hnext hsame hrepeated, hlast, hend, ?_⟩
        intro passes hpasses
        obtain ⟨k, rfl⟩ := Nat.exists_eq_succ_of_ne_zero (Nat.ne_of_gt (Nat.zero_lt_of_lt hpasses))
        rw [settleFor_succ, hnext]
        show (if next = table then Except.ok table else settleFor pass k next) = pass last
        rw [if_neg hsame]
        exact hsettle k (by omega)

section Runs

variable (setting : Setting) (handlers : List ExceptionHandler)
  (instructions : List (Nat × Instruction)) (start : MachineState)

/-- **The passes over a body come to an end**, whatever the hierarchy says: so many of them change
something, and the one behind them fails or changes nothing. That one is what `settle` gives. -/
theorem exists_last_run (hnodup : (table.map (·.1)).Nodup) :
    ∃ n ≤ (chainLimit + 3) * table.slotCount, ∃ last,
      Repeated (run setting handlers instructions start) n table last
        ∧ FrameTable.Moved setting.hierarchy table last
        ∧ (run setting handlers instructions start last = .ok last
          ∨ ∃ e, run setting handlers instructions start last = .error e)
        ∧ settle (run setting handlers instructions start) table
          = run setting handlers instructions start last := by
  have hpass (t t' : FrameTable) (ht : FrameTable.Moved setting.hierarchy table t)
      (hrun : run setting handlers instructions start t = .ok t') :
      FrameTable.Moved setting.hierarchy table t'
        ∧ (t' = t ∨ t'.rank setting.hierarchy < t.rank setting.hierarchy) := by
    have hmoved := run_moved (ht.nodup hnodup) hrun
    exact ⟨ht.trans hmoved, hmoved.widensTo.eq_or_rank_lt⟩
  obtain ⟨n, hn, last, hrepeated, hmoved, hend, hsettle⟩ :=
    exists_last (FrameTable.Moved setting.hierarchy table) (FrameTable.rank setting.hierarchy) hpass
      (.refl table)
  have hrank := FrameTable.rank_le (h := setting.hierarchy) table
  have hlimit : (chainLimit + 3) * table.slotCount ≤ 2 * chainLimit * table.slotCount :=
    Nat.mul_le_mul_right _ (by decide)
  exact ⟨n, by omega, last, hrepeated, hmoved, hend, hsettle _ (by omega)⟩

/-- **Settled frames stay as they are**: one more pass gives them back, and they have come from
the declared ones by a row of moves. -/
theorem settle_run {setting : Setting} {handlers : List ExceptionHandler}
    {instructions : List (Nat × Instruction)} {start : MachineState} (hnodup : (table.map (·.1)).Nodup)
    (hsettle : settle (run setting handlers instructions start) table = .ok settled) :
    FrameTable.Moved setting.hierarchy table settled
      ∧ run setting handlers instructions start settled = .ok settled := by
  obtain ⟨n, _, last, _, hmoved, hend, hlast⟩ :=
    exists_last_run setting handlers instructions start hnodup
  rw [hsettle] at hlast
  rcases hend with hsame | ⟨e, hfail⟩
  · obtain rfl := Except.ok.inj (hlast.trans hsame)
    exact ⟨hmoved, hsame⟩
  · cases hlast.trans hfail

end Runs
end Settle
end ClassLoom.Typing.Pass
