import ClassLoom.Proofs.Typing.Checked
import ClassLoom.Proofs.Weave.Rewriting

/-!
# Receivers of constructor calls

Which object a constructor is called on is told by the state in front of the call: it lies below
the arguments. In a body that checks against a table of frames, it is the receiver of the method
itself or a new object, known by the offset of its `new`.

* `receiver_of_step`: the object that one call is made on;
* `Pass.receiver?_cases`: the objects that the constructor calls of a body are made on.
-/

namespace ClassLoom.Typing

open Redirection (constructor? callee?)

/-! ## Calls of constructors

The receiver of a constructor call lies below its arguments. Which object it is can be told from its
type. -/

/-- What a call takes off the stack below its arguments. -/
def popReceiver (d : MethodDescriptor) : Transition SlotType := do
  MachineState.drop d.paramSlots
  MachineState.pop

/-- The object that a constructor call is made on, in the state in front of it. -/
def receiverIn (pool : ConstantPool) (i : Instruction) (current : MachineState) :
    Option SlotType :=
  match constructor? pool i with
  | none => none
  | some target =>
    match MethodDescriptor.parse target.descriptor with
    | .error _ => none
    | .ok d =>
      match popReceiver d current with
      | .error _ => none
      | .ok (receiver, _) => some receiver

/-- The step of an `invokespecial`. Arguments are dropped, the receiver is popped, and a constructor
call gives it its type. -/
theorem step_invokeSpecial {pool : ConstantPool} {method : EnclosingMethod} {pc : Nat}
    {i : Instruction} (hop : i.opcode = Opcode.invokeSpecial) : step pool method pc i
      = (do Step.call pool method Opcode.invokeSpecial (← Step.wordOperand i)) := by
  have heffect : Effect.of? Opcode.invokeSpecial = none := by decide
  have hslot : Step.slotAccess? pool i = none := by
    unfold Step.slotAccess?
    simp only [hop]
    rfl
  have hmember : Step.memberAccess? pool method i
      = some (do Step.call pool method Opcode.invokeSpecial (← Step.wordOperand i)) := by
    unfold Step.memberAccess?
    simp only [hop]
    rfl
  unfold step
  simp only [hop, heffect, hslot, hmember]
  rfl

/-- **Constructors are called on objects that have not been initialized**, if the checker accepts
the call. -/
theorem receiver_of_step {pool : ConstantPool} {method : EnclosingMethod} {pc : Nat}
    {i : Instruction} {current left : MachineState} {target : MemberRef}
    (htarget : constructor? pool i = some target)
    (hstep : step pool method pc i current = .ok ((), left)) :
    ∃ d receiver, MethodDescriptor.parse target.descriptor = .ok d
      ∧ receiverIn pool i current = some receiver
      ∧ (receiver = .uninitializedThis ∨ ∃ newPc, receiver = .uninitialized newPc) := by
  have hop := Redirection.opcode_of_constructor? (by rw [htarget]; rfl)
  obtain ⟨htarget', hname⟩ : callee? pool i = some target
      ∧ target.name = constructorName := by
    unfold constructor? at htarget
    rw [if_pos hop] at htarget
    obtain ⟨hcallee, hname⟩ := Option.filter_eq_some_iff.1 htarget
    exact ⟨hcallee, of_decide_eq_true hname⟩
  obtain ⟨index, hword, hmember⟩ := Redirection.exists_word_of_callee? htarget'
  rw [step_invokeSpecial hop] at hstep
  -- The call as the checker takes it apart: its reference, the arguments, and what is below them.
  obtain ⟨index', hword', hcall⟩ := stateT_lift_bind_eq_ok.1 hstep
  unfold Step.wordOperand at hword'
  rw [hword] at hword'
  cases hword'
  obtain ⟨found, hfound, hcall⟩ := stateT_lift_bind_eq_ok.1 hcall
  rw [hmember] at hfound
  cases hfound
  obtain ⟨d, hd, hcall⟩ := stateT_lift_bind_eq_ok.1 hcall
  obtain ⟨_, dropped, hdrop, hcall⟩ := stateT_bind_eq_ok.1 hcall
  rw [if_pos (by decide)] at hcall
  obtain ⟨receiver, popped, hpop, hcall⟩ := stateT_bind_eq_ok.1 hcall
  rw [if_pos (by simp [hname])] at hcall
  obtain ⟨name, hinitialized, _⟩ := stateT_lift_bind_eq_ok.1 hcall
  -- The checker names the class that has been initialized, for these two kinds of slots only.
  refine ⟨d, receiver, hd, ?_, ?_⟩
  · have hpops : popReceiver d current = .ok (receiver, popped) :=
      stateT_bind_eq_ok.2 ⟨_, dropped, hdrop, hpop⟩
    simp only [receiverIn, htarget, hd, hpops]
  · unfold Step.initializedClass at hinitialized
    split at hinitialized
    · exact .inl rfl
    · exact .inr ⟨_, rfl⟩
    · cases hinitialized

/-! ## Bodies that check

In a body that checks there is one state in front of each instruction that control can reach, so the
receiver of a call is known without a run. -/

namespace Pass

/-- The states in front of the instructions that control can come to, in a body that checks
against a table, behind an instruction that leaves the given state. -/
def statesFrom (setting : Setting) (table : FrameTable) :
    Option MachineState → List (Nat × Instruction) → List (Nat × MachineState)
  | _, [] => []
  | state, (pc, i) :: rest =>
    match table.lookup pc <|> state with
    | none => statesFrom setting table none rest
    | some current =>
      let left :=
        match step setting.pool setting.method pc i current with
        | .ok ((), left) => if Opcode.endsBlock i.opcode then none else some left
        | .error _ => none
      (pc, current) :: statesFrom setting table left rest

/-- The object that a constructor call of a body is made on: nothing for other instructions, and
where control cannot come to the call. -/
def receiver? (setting : Setting) (table : FrameTable) (start : MachineState)
    (body : List (Nat × Instruction)) (e : Nat × Instruction) : Option SlotType :=
  ((statesFrom setting table (some start) body).find? (·.1 = e.1)).bind fun state =>
    receiverIn setting.pool e.2 state.2

section Checked

variable {setting : Setting} {handlers : List ExceptionHandler} {table : FrameTable}

/-- The states in front of the instructions of a body that checks are those that its instructions
fit. -/
theorem exists_fits_of_mem {state : Option MachineState} {body : List (Nat × Instruction)}
    (h : Checked setting handlers table state body) {pc : Nat} {current : MachineState}
    (hmem : (pc, current) ∈ statesFrom setting table state body) :
    ∃ i left, (pc, i) ∈ body ∧ Fits setting handlers table pc i current left := by
  -- On the check of the body. A state is listed just where an instruction is checked against it.
  induction h with
  | done => cases hmem
  | @unreachable state pc' i' rest harrives hrest ih =>
    have hnone : (table.lookup pc' <|> state) = none := by
      cases harrives with
      | through hno => rw [hno]; rfl
    rw [statesFrom, hnone] at hmem
    obtain ⟨i, left, hi, hfits⟩ := ih hmem
    exact ⟨i, left, List.mem_cons_of_mem _ hi, hfits⟩
  | @instruction state pc' i' rest current' left' harrives hfits hrest ih =>
    have hsome : (table.lookup pc' <|> state) = some current' := by
      cases harrives with
      | through hno => rw [hno]; rfl
      | enter hframe => rw [hframe]; rfl
      | join hframe _ => rw [hframe]; rfl
    rw [statesFrom, hsome] at hmem
    simp only [hfits.step] at hmem
    rcases List.mem_cons.1 hmem with hhere | hlater
    · cases hhere
      exact ⟨i', left', List.mem_cons_self .., hfits⟩
    · obtain ⟨i, left, hi, hfits⟩ := ih hlater
      exact ⟨i, left, List.mem_cons_of_mem _ hi, hfits⟩

/-- **The checker knows what every constructor is called on**, where control can come to the
call. -/
theorem receiver?_cases {start : MachineState} {body : List (Nat × Instruction)}
    (h : Checked setting handlers table (some start) body)
    (hpcs : (body.map (·.1)).Pairwise (· < ·)) {e : Nat × Instruction} (he : e ∈ body)
    {target : MemberRef} (htarget : constructor? setting.pool e.2 = some target) :
    (∀ state ∈ statesFrom setting table (some start) body, state.1 ≠ e.1)
        ∧ receiver? setting table start body e = none
      ∨ (∃ d, MethodDescriptor.parse target.descriptor = .ok d)
        ∧ (receiver? setting table start body e = some .uninitializedThis
          ∨ ∃ newPc, receiver? setting table start body e = some (.uninitialized newPc)) := by
  unfold receiver?
  cases hfound : (statesFrom setting table (some start) body).find? (·.1 = e.1) with
  | none =>
    refine .inl ⟨fun state hstate hpc => ?_, rfl⟩
    have hnone := List.find?_eq_none.1 hfound state hstate
    simp [hpc] at hnone
  | some state =>
    obtain ⟨pc, current⟩ := state
    have hpc : pc = e.1 := by simpa using List.find?_some hfound
    obtain ⟨i, left, hi, hfits⟩ := exists_fits_of_mem h (List.mem_of_find?_eq_some hfound)
    -- The offset of a state tells which instruction it belongs to.
    have hsame : (pc, i) = e := Redirection.eq_of_pc_eq hpcs hi he hpc
    rw [← hsame] at htarget ⊢
    obtain ⟨d, receiver, hd, hreceiver, hobject⟩ := receiver_of_step htarget hfits.step
    rw [Option.bind_some]
    simp only [hreceiver, Option.some.injEq]
    exact .inr ⟨⟨d, hd⟩, hobject⟩

end Checked
end Pass
end ClassLoom.Typing
