import ClassLoom.Proofs.Typing.LocalSlots
import ClassLoom.Proofs.Typing.Settled

/-!
# States that the analysis comes to

A pass is a row of actions: it comes to instructions, merges states into frames, lets instructions
change the state, and leaves blocks (`Pass.run_eq_foldlM`). So the analysis of a body comes to the
states and tables that are left after any number of actions, in whichever pass, whether or not an
action fails further on (`Pass.Reached`).

What every action keeps (`Pass.shaped_of_perform`) holds at all of them: wide values are whole in
local variables, and on the stacks of frames, though not on the stack of the state that is carried
along. That is what makes states the same as the values in them where frames are written.

* `Pass.reached_shaped`: the states that the analysis of a body comes to.
-/

namespace ClassLoom.Typing

/-! ## Frames that are merged into

A frame that takes in a state only widens, and a wide value that widens does so as a whole. -/

section Merges

variable {h : Hierarchy} {maxLocals : Nat}

/-- A row of moves widens a state. -/
theorem MachineState.widensTo_of_moved {old new : MachineState}
    (hmoved : Relation.ReflTransGen (Moves h) old new) : WidensTo h old new := by
  induction hmoved with
  | refl => exact .refl old
  | tail _ hmove ih => exact ih.trans hmove.widensTo

namespace FrameTable

variable {table next : FrameTable} {pc : Nat}

/-- A frame of a table whose wide values are whole has them whole, and as many local variables as
the others. -/
theorem Paired.of_lookup (h : Paired maxLocals table) {frame : MachineState}
    (hlookup : table.lookup pc = some frame) : frame.Paired ∧ frame.locals.length = maxLocals := by
  induction table with
  | nil => cases hlookup
  | cons f table ih =>
    obtain ⟨hf, hrest⟩ := List.forall_mem_cons.1 h
    rw [List.lookup_cons] at hlookup
    split at hlookup
    · cases hlookup
      exact hf
    · exact ih hrest hlookup

/-- A frame whose wide values are whole may come into the table. -/
theorem Paired.set (h : Paired maxLocals table) {new : MachineState}
    (hnew : new.Paired ∧ new.locals.length = maxLocals) : Paired maxLocals (table.set pc new) := by
  intro f hf
  obtain ⟨⟨offset, state⟩, hmem, rfl⟩ := List.mem_map.1 hf
  simp only
  split
  · exact hnew
  · exact h _ hmem

/-- Widening a frame keeps its wide values whole. Where there is no frame, nothing can be merged. -/
theorem Paired.modify (htable : Paired maxLocals table)
    {f : MachineState → Except ClassError MachineState}
    (hf : ∀ s t, f s = .ok t → MachineState.WidensTo h s t)
    (hmodify : table.modify pc f = .ok next) : Paired maxLocals next := by
  unfold FrameTable.modify at hmodify
  split at hmodify
  · next frame hlookup =>
    obtain ⟨new, hnew, hend⟩ := bind_eq_ok.1 hmodify
    cases hend
    have hwidens := hf frame new hnew
    obtain ⟨hpaired, hlength⟩ := htable.of_lookup hlookup
    exact htable.set ⟨hpaired.widened hwidens, by rw [← hwidens.locals.length_eq, hlength]⟩
  · cases hmodify

/-- **Merges keep the wide values of frames whole.** -/
theorem Paired.merge (htable : Paired maxLocals table) {incoming : MachineState}
    (hmerge : table.merge h pc incoming = .ok next) : Paired maxLocals next :=
  htable.modify (fun _ _ hst => MachineState.widensTo_of_moved (MachineState.moved_of_merge hst))
    hmerge

/-- So do merges of local variables only, as a handler takes them. -/
theorem Paired.mergeLocals (htable : Paired maxLocals table) {incoming : MachineState}
    (hmerge : table.mergeLocals h pc incoming = .ok next) : Paired maxLocals next := by
  refine htable.modify (h := h) (fun s t hst => ?_) hmerge
  obtain ⟨locals, hlocals, hend⟩ := bind_eq_ok.1 hst
  cases hend
  exact MachineState.widensTo_of_moved
    (MachineState.moved_locals (MachineState.moved_of_mergeLocals hlocals))

end FrameTable
end Merges

namespace Pass

/-! ## Passes as rows of actions

A pass is defined instruction by instruction, each of which does several things in turn. Taken apart
into single actions it is one fold, and what an action keeps is kept in the middle of an
instruction, too. -/

/-- One thing that a pass does. -/
inductive Action where
  /-- Comes to an offset. If it has a frame, control goes on with what the frame says. -/
  | arrive (pc : Nat)
  /-- Makes the frame of an exception handler take the locals of the state. -/
  | protect (handler : Nat)
  /-- Lets the instruction at an offset change the state. -/
  | step (pc : Nat) (i : Instruction)
  /-- Makes the frame of a jump target take the state. -/
  | jump (target : Nat)
  /-- Gives the state up, behind the end of a block. -/
  | leave

/-- What an action does. Without a state there is nothing to do but to arrive somewhere. -/
def Action.perform (setting : Setting) (flow : Flow) (action : Action) : Except ClassError Flow :=
  match action, flow.state with
  | .arrive pc, _ => Pass.arrive setting.hierarchy pc flow
  | _, none => return flow
  | .protect handler, some state => do
    return { flow with table := ← flow.table.mergeLocals setting.hierarchy handler state }
  | .step pc i, some state => do
    let ((), next) ← Typing.step setting.pool setting.method pc i state
    return { flow with state := some next }
  | .jump target, some state => do
    return { flow with table := ← flow.table.merge setting.hierarchy target state }
  | .leave, some _ => return { flow with state := none }

/-- What is done behind the step of an instruction. -/
def actionsBehind (handlers : List ExceptionHandler) (pc : Nat) (i : Instruction) : List Action :=
  (if i.isStore then (handlersOf handlers pc).map .protect else [])
    ++ (i.targets.map .jump ++ if Opcode.endsBlock i.opcode then [.leave] else [])

/-- What is done at an instruction. -/
def actionsAt (handlers : List ExceptionHandler) (entry : Nat × Instruction) : List Action :=
  let (pc, i) := entry
  .arrive pc :: ((handlersOf handlers pc).map .protect
    ++ .step pc i :: actionsBehind handlers pc i)

/-- What a pass over a body does. -/
def actions (handlers : List ExceptionHandler) (instructions : List (Nat × Instruction)) :
    List Action :=
  instructions.flatMap (actionsAt handlers)

section Actions

variable {setting : Setting} {handlers : List ExceptionHandler}

/-- Actions that merge one state into frames change nothing but the table. The state is what it was,
so each next one merges the same. -/
theorem foldlM_merges {state : MachineState} {act : Nat → Action}
    {f : FrameTable → Nat → Except ClassError FrameTable}
    (hact : ∀ table pc, (act pc).perform setting { table, state := some state }
      = (fun table => { table, state := some state }) <$> f table pc)
    (targets : List Nat) (table : FrameTable) :
    (targets.map act).foldlM (Action.perform setting) { table, state := some state }
      = (fun table => { table, state := some state }) <$> targets.foldlM f table := by
  induction targets generalizing table with
  | nil => rfl
  | cons pc targets ih =>
    rw [List.map_cons, List.foldlM_cons, List.foldlM_cons, hact, map_bind, bind_map_left]
    exact bind_congr fun table => ih table

/-- Where control cannot come to, an instruction is passed over. Only arriving could bring control
there. -/
theorem foldlM_unreachable {flow : Flow} (hflow : flow.state = none) {actions : List Action}
    (hactions : ∀ pc, .arrive pc ∉ actions) :
    actions.foldlM (Action.perform setting) flow = .ok flow := by
  induction actions with
  | nil => rfl
  | cons action actions ih =>
    have hperform : action.perform setting flow = .ok flow := by
      cases action with
      | arrive pc => exact absurd (List.mem_cons_self ..) (hactions pc)
      | _ => simp only [Action.perform, hflow]; rfl
    rw [List.foldlM_cons, hperform]
    exact ih fun pc hpc => hactions pc (List.mem_cons_of_mem _ hpc)

/-- What follows the step of an instruction is a row of actions. These are the jumps, the handlers
of a store, and leaving. -/
theorem leave_eq_foldlM (pc : Nat) (i : Instruction) (left : MachineState) (table : FrameTable) :
    leave setting handlers pc i left table
      = (actionsBehind handlers pc i).foldlM (Action.perform setting)
          { table, state := some left } := by
  -- Only a store has the handlers accept its locals a second time.
  have hstored : (if i.isStore then (handlersOf handlers pc).map Action.protect else []).foldlM
        (Action.perform setting) { table, state := some left }
      = (fun table => { table, state := some left }) <$>
        (if i.isStore then protect setting.hierarchy (handlersOf handlers pc) left table
          else .ok table) := by
    split
    · exact foldlM_merges (fun _ _ => (map_eq_pure_bind _ _).symm) _ table
    · rfl
  have hjumps (table : FrameTable) : (i.targets.map Action.jump).foldlM
        (Action.perform setting) { table, state := some left }
      = (fun table => { table, state := some left }) <$>
        i.targets.foldlM (fun t pc => t.merge setting.hierarchy pc left) table :=
    foldlM_merges (fun _ _ => (map_eq_pure_bind _ _).symm) _ table
  -- Three stretches of actions, one behind the other: handlers, jumps, and the end of a block.
  unfold leave actionsBehind
  rw [List.foldlM_append, hstored, bind_map_left]
  refine bind_congr fun stored => ?_
  rw [List.foldlM_append, hjumps, bind_map_left]
  refine bind_congr fun merged => ?_
  split <;> rfl

/-- **Going through an instruction is a row of actions.** Whether control arrives is decided by the
first of them. -/
theorem visit_eq_foldlM (flow : Flow) (entry : Nat × Instruction) :
    visit setting handlers flow entry
      = (actionsAt handlers entry).foldlM (Action.perform setting) flow := by
  obtain ⟨pc, i⟩ := entry
  rw [visit_eq]
  unfold actionsAt
  simp only
  rw [List.foldlM_cons]
  refine bind_congr fun arrived => ?_
  obtain ⟨table, state⟩ := arrived
  -- Without a state all other actions do nothing.
  cases state with
  | none =>
    refine (foldlM_unreachable rfl fun pc' => ?_).symm
    unfold actionsBehind
    cases i.isStore <;> cases Opcode.endsBlock i.opcode <;> simp
  | some current =>
    rw [List.foldlM_append, foldlM_merges (fun _ _ => (map_eq_pure_bind _ _).symm), bind_map_left]
    refine bind_congr fun shielded => ?_
    rw [List.foldlM_cons]
    simp only [leave_eq_foldlM, Action.perform, bind_assoc, pure_bind]

/-- **A pass is a row of actions.** It is that of its instructions, one behind the other. What holds
of every action therefore holds of a pass that stops anywhere. -/
theorem run_eq_foldlM (instructions : List (Nat × Instruction)) (start : MachineState)
    (table : FrameTable) :
    run setting handlers instructions start table
      = (·.table) <$> (actions handlers instructions).foldlM (Action.perform setting)
          { table, state := some start } := by
  have hvisits (flow : Flow) : instructions.foldlM (visit setting handlers) flow
      = (actions handlers instructions).foldlM (Action.perform setting) flow := by
    induction instructions generalizing flow with
    | nil => rfl
    | cons entry instructions ih =>
      unfold actions
      rw [List.foldlM_cons, List.flatMap_cons, List.foldlM_append, visit_eq_foldlM]
      exact bind_congr fun flow => ih flow
  unfold run
  rw [hvisits]
  exact (map_eq_pure_bind _ _).symm

end Actions

/-! ## States that are reached

The analysis is not only what it ends with. It is in some state after any number of actions of any
pass, and all of these are meant here. -/

/-- Whether the analysis of a body comes to a table and a state, with the actions `rest` still to
do in the pass that it is in. It begins with the declared frames; as often as it has come to the
end of a pass, it may begin another one. -/
inductive Reached (setting : Setting) (pass : List Action) (start : MachineState)
    (declared : FrameTable) : List Action → Flow → Prop where
  | enter : Reached setting pass start declared pass { table := declared, state := some start }
  | perform {action : Action} {rest : List Action} {flow after : Flow}
      (hflow : Reached setting pass start declared (action :: rest) flow)
      (hperform : action.perform setting flow = .ok after) :
      Reached setting pass start declared rest after
  | again {flow : Flow} (hflow : Reached setting pass start declared [] flow) :
      Reached setting pass start declared pass { table := flow.table, state := some start }

section Reached

variable {setting : Setting} {pass : List Action} {start : MachineState} {declared : FrameTable}

/-- Actions in a row go on from what is reached to what is reached. So the end of a stretch of a
pass is reached if its beginning is. -/
theorem Reached.foldlM {done rest : List Action} {flow after : Flow}
    (hflow : Reached setting pass start declared (done ++ rest) flow)
    (hdone : done.foldlM (Action.perform setting) flow = .ok after) :
    Reached setting pass start declared rest after := by
  induction done generalizing flow with
  | nil =>
    cases hdone
    exact hflow
  | cons action done ih =>
    rw [List.foldlM_cons] at hdone
    obtain ⟨mid, hmid, hdone⟩ := bind_eq_ok.1 hdone
    exact ih (hflow.perform hmid) hdone

/-- What the passes over a body settle on is reached: it is the table at the beginning of some
pass. -/
theorem exists_reached_of_settleFor {handlers : List ExceptionHandler}
    {instructions : List (Nat × Instruction)} {passes : Nat} {table settled : FrameTable}
    (htable : Reached setting (actions handlers instructions) start declared
      (actions handlers instructions) { table, state := some start })
    (hsettle : settleFor (run setting handlers instructions start) passes table = .ok settled) :
    ∃ rest flow, Reached setting (actions handlers instructions) start declared rest flow
      ∧ flow.table = settled := by
  induction passes generalizing table with
  | zero =>
    cases hsettle
    exact ⟨_, _, htable, rfl⟩
  | succ passes ih =>
    rw [settleFor_succ] at hsettle
    obtain ⟨next, hrun, hsettle⟩ := bind_eq_ok.1 hsettle
    split at hsettle
    · cases hsettle
      exact ⟨_, _, htable, rfl⟩
    · rw [run_eq_foldlM, map_eq_pure_bind] at hrun
      obtain ⟨flow, hflow, hend⟩ := bind_eq_ok.1 hrun
      cases hend
      -- A pass that is not the last one begins with all its actions to do.
      have hpass : Reached setting (actions handlers instructions) start declared
          (actions handlers instructions ++ []) { table, state := some start } := by
        rw [List.append_nil]
        exact htable
      exact ih (hpass.foldlM hflow).again hsettle

end Reached

/-! ## What actions keep

An action changes the state, one frame, or both. Halves of wide values are taken apart only on the
stack of the state, which is why nothing is said of that one. -/

/-- Whether wide values are whole in local variables, those of the state and of all frames, and
on the stacks of frames. -/
structure Shaped (maxLocals : Nat) (flow : Flow) : Prop where
  frames : FrameTable.Paired maxLocals flow.table
  state : ∀ s, flow.state = some s → SlotType.Shaped maxLocals s.locals

section Shaped

variable {setting : Setting} {maxLocals : Nat} {flow after : Flow}

/-- Arriving at an instruction keeps wide values whole: the state is the frame there, or widens into
it. -/
theorem shaped_of_arrive {h : Hierarchy} {pc : Nat} (hflow : Shaped maxLocals flow)
    (harrive : arrive h pc flow = .ok after) : Shaped maxLocals after := by
  unfold arrive at harrive
  split at harrive
  · cases harrive
    exact hflow
  · next frame hlookup _ =>
    cases harrive
    obtain ⟨hpaired, hlength⟩ := hflow.frames.of_lookup hlookup
    refine ⟨hflow.frames, fun s hs => ?_⟩
    cases hs
    exact SlotType.shaped_iff.2 ⟨hlength, hpaired.locals⟩
  · next frame incoming hlookup _ =>
    -- A frame is widened slot by slot, which changes neither their number nor what is paired.
    obtain ⟨merged, hmerged, hend⟩ := bind_eq_ok.1 harrive
    cases hend
    obtain ⟨hpaired, hlength⟩ := hflow.frames.of_lookup hlookup
    have hwidens := MachineState.widensTo_of_moved (MachineState.moved_of_merge hmerged)
    have hnew := hpaired.widened hwidens
    have hcount : merged.locals.length = maxLocals := by
      rw [← hwidens.locals.length_eq, hlength]
    refine ⟨hflow.frames.set ⟨hnew, hcount⟩, fun s hs => ?_⟩
    cases hs
    exact SlotType.shaped_iff.2 ⟨hcount, hnew.locals⟩

/-- **Every action keeps wide values whole.** What an instruction does to local variables is known
from its step. -/
theorem shaped_of_perform {action : Action} (hflow : Shaped maxLocals flow)
    (hperform : action.perform setting flow = .ok after) : Shaped maxLocals after := by
  obtain ⟨table, state⟩ := flow
  -- Without a state, only arriving somewhere does anything.
  cases state with
  | none =>
    cases action with
    | arrive pc => exact shaped_of_arrive hflow hperform
    | _ =>
      cases hperform
      exact hflow
  | some current =>
    cases action with
    | arrive pc => exact shaped_of_arrive hflow hperform
    | protect handler =>
      obtain ⟨next, hnext, hend⟩ := bind_eq_ok.1 hperform
      cases hend
      exact ⟨hflow.frames.mergeLocals hnext, hflow.state⟩
    | step pc i =>
      obtain ⟨⟨⟨⟩, next⟩, hnext, hend⟩ := bind_eq_ok.1 hperform
      cases hend
      refine ⟨hflow.frames, fun s hs => ?_⟩
      cases hs
      exact step_keepsShape maxLocals _ _ pc i hnext (hflow.state current rfl)
    | jump target =>
      obtain ⟨next, hnext, hend⟩ := bind_eq_ok.1 hperform
      cases hend
      exact ⟨hflow.frames.merge hnext, hflow.state⟩
    | leave =>
      cases hperform
      exact ⟨hflow.frames, fun s hs => by cases hs⟩

/-- **Wide values are whole wherever the analysis comes to**, if they are in the declared frames
and at the start. -/
theorem Reached.shaped {pass rest : List Action} {start : MachineState} {declared : FrameTable}
    (hdeclared : FrameTable.Paired maxLocals declared)
    (hstart : SlotType.Shaped maxLocals start.locals)
    (hreached : Reached setting pass start declared rest flow) : Shaped maxLocals flow := by
  have hentry (table : FrameTable) (htable : FrameTable.Paired maxLocals table) :
      Shaped maxLocals { table, state := some start } :=
    ⟨htable, fun s hs => by
      cases hs
      exact hstart⟩
  induction hreached with
  | enter => exact hentry declared hdeclared
  | perform _ hperform ih => exact shaped_of_perform ih hperform
  | again _ ih => exact hentry _ ih.frames

end Shaped

/-! ## Bodies

The declared frames and the state at the start are written out from values, so wide values are whole
in them. -/

/-- **Wide values are whole in every state that the analysis of a body comes to.** A pass is a row
of actions, and what the passes settle on is reached by them. Wherever the analysis has come to,
the state and all frames have exactly the local variable slots that the body declares, and each
wide type among them has an unused slot behind it; the stack of each frame is that of a list of
values. Slots of that kind are the same as the values in them, without those at the end of the
local variables that are not in use. -/
theorem reached_shaped (setting : Setting) (handlers : List ExceptionHandler)
    (instructions : List (Nat × Instruction)) {maxLocals : Nat} {values : List SlotType}
    {frames : List StackMap.Frame} {declared : FrameTable} {start : MachineState}
    (hdeclared : FrameTable.declared setting.pool maxLocals values frames = .ok declared)
    (hstart : MachineState.ofValues maxLocals values [] = .ok start) :
    (∀ table, run setting handlers instructions start table
        = (·.table) <$> (actions handlers instructions).foldlM (Action.perform setting)
            { table, state := some start })
      ∧ (∀ settled, settle (run setting handlers instructions start) declared = .ok settled →
        ∃ rest flow, Reached setting (actions handlers instructions) start declared rest flow
          ∧ flow.table = settled)
      ∧ (∀ rest flow, Reached setting (actions handlers instructions) start declared rest flow →
        (∀ s, flow.state = some s → SlotType.Shaped maxLocals s.locals)
          ∧ ∀ f ∈ flow.table, SlotType.Shaped maxLocals f.2.locals
            ∧ ∃ values, f.2.stack.reverse = SlotType.slotsOf values)
      ∧ ∀ s : MachineState, SlotType.Shaped maxLocals s.locals →
        (∃ values, s.stack.reverse = SlotType.slotsOf values) →
        MachineState.ofValues maxLocals s.localValues s.stackValues = .ok s := by
  obtain ⟨hpaired, hlength⟩ := MachineState.ofValues_eq_ok hstart
  -- A pass as actions, what is settled on, what is reached, and reading the values back.
  refine ⟨run_eq_foldlM instructions start, fun settled hsettle =>
    exists_reached_of_settleFor .enter hsettle, fun rest flow hreached => ?_, ?_⟩
  · have hshaped := hreached.shaped (FrameTable.declared_paired hdeclared)
      (SlotType.shaped_iff.2 ⟨hlength, hpaired.locals⟩)
    refine ⟨hshaped.state, fun f hf => ?_⟩
    obtain ⟨hframe, hcount⟩ := hshaped.frames f hf
    exact ⟨SlotType.shaped_iff.2 ⟨hcount, hframe.locals⟩, SlotType.valuesOf f.2.stack.reverse,
      (SlotType.slotsOf_valuesOf hframe.stack).symm⟩
  · rintro s hlocals ⟨values, hstack⟩
    obtain ⟨hcount, hlocals⟩ := SlotType.shaped_iff.1 hlocals
    have hstack : SlotType.Paired s.stack.reverse := by
      rw [hstack]
      exact SlotType.paired_slotsOf values
    rw [← hcount]
    exact MachineState.ofValues_values ⟨hlocals, hstack⟩

/-- A `swap` pulls a `long` on the stack apart, and its first half is stored over the second half
of the parameter. Room is made for both halves, and the parameter goes out of use; where control
arrives with both of them, neither can be used. -/
theorem reached_shaped_torn :
    let setting : Setting :=
      { hierarchy := fun _ => none, pool := ConstantPool.empty
        method := { owner := "C", name := "f", descriptor := "(J)V", isStatic := true } }
    -- `lconst_0`, `swap`, `lstore_1`, `pop` and `return`, with a frame at the last one.
    let instructions : List (Nat × Instruction) :=
      [(0, .plain [0x09]), (1, .plain [Opcode.swap]), (2, .plain [0x40]), (3, .plain [0x57]),
        (4, .plain [Opcode.vreturn])]
    let start : MachineState := { locals := [.long, .top, .top], stack := [] }
    let declared : FrameTable := [(4, start)]
    let stored : MachineState := { locals := [.top, .long, .top], stack := [.top] }
    let settled : FrameTable := [(4, { locals := [.top, .top, .top], stack := [] })]
    FrameTable.declared setting.pool 3 [.long] [{ offset := 4, change := .same }] = .ok declared
      ∧ MachineState.ofValues 3 [.long] [] = .ok start
      ∧ (∃ rest, Reached setting (actions [] instructions) start declared rest
          { table := declared, state := some stored })
      ∧ SlotType.Shaped 3 stored.locals
      ∧ settle (run setting [] instructions start) declared = .ok settled
      ∧ ∃ rest flow, Reached setting (actions [] instructions) start declared rest flow
        ∧ flow.table = settled := by
  intro setting instructions start declared stored settled
  have hdeclared : FrameTable.declared setting.pool 3 [.long] [{ offset := 4, change := .same }]
      = .ok declared := by
    decide +kernel
  have hstart : MachineState.ofValues 3 [.long] [] = .ok start := by
    decide +kernel
  have hsettled : settle (run setting [] instructions start) declared = .ok settled := by
    decide +kernel
  obtain ⟨_, hsettle, hshaped, _⟩ := reached_shaped setting [] instructions hdeclared hstart
  have hreached : Reached setting (actions [] instructions) start declared
      ((actions [] instructions).drop 6) { table := declared, state := some stored } := by
    have hentry : Reached setting (actions [] instructions) start declared
        ((actions [] instructions).take 6 ++ (actions [] instructions).drop 6)
        { table := declared, state := some start } := by
      rw [List.take_append_drop]
      exact .enter
    exact hentry.foldlM rfl
  exact ⟨hdeclared, hstart, ⟨_, hreached⟩, (hshaped _ _ hreached).1 stored rfl, hsettled,
    hsettle settled hsettled⟩

end Pass
end ClassLoom.Typing
