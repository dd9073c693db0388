import ClassLoom.Proofs.ConstantPool.Growth
import ClassLoom.Proofs.Typing.Passes
import Mathlib.Data.Option.Basic
import Mathlib.Tactic.SplitIfs

/-!
# Typing under growing pools

What instructions do to types depends on the pool only through what they find in it. Under a
pool that has grown, every transition that succeeded does the same.

* `step_grown`: single instructions;
* `Pass.run_grown`: whole passes.
-/

namespace ClassLoom.Typing

open ConstantPool

/-! ## Transitions

A later pool answers all that an earlier one has answered, and maybe more. So a transition under the
later pool `Refines` the one under the earlier pool: it does the same wherever that succeeds.
Nothing is said of where that fails, since the later pool may have what was missing. -/

namespace Transition

/-- Whether a transition does what another one does wherever that one succeeds. -/
def Refines {α : Type} (new old : StateT MachineState (Except ClassError) α) : Prop :=
  ∀ s r, old s = .ok r → new s = .ok r

section Refines

variable {α β : Type}

theorem Refines.refl (t : StateT MachineState (Except ClassError) α) : Refines t t :=
  fun _ _ h => h

/-- Transitions one behind the other refine those that their parts refine. -/
theorem Refines.bind {x x' : StateT MachineState (Except ClassError) α}
    {f f' : α → StateT MachineState (Except ClassError) β} (hx : Refines x' x)
    (hf : ∀ a, Refines (f' a) (f a)) : Refines (x' >>= f') (x >>= f) := by
  intro s r h
  obtain ⟨⟨a, mid⟩, ha, hend⟩ := bind_eq_ok.1 h
  exact bind_eq_ok.2 ⟨(a, mid), hx s _ ha, hf a mid r hend⟩

/-- Computations that only look something up, and find what was found before. -/
theorem Refines.lift {x x' : Except ClassError α} (hx : ∀ a, x = .ok a → x' = .ok a) :
    Refines (liftM x') (liftM x) := by
  intro s r h
  obtain ⟨a, ha, hend⟩ := bind_eq_ok.1 h
  exact bind_eq_ok.2 ⟨a, hx a ha, hend⟩

/-- Where one of two groups of instructions is chosen, the choice is the same under both pools: it
depends on the instruction alone. -/
theorem Refines.orElse {a a' b b' : Option (Transition Unit)} (ha : Option.Rel Refines a' a)
    (hb : Option.Rel Refines b' b) : Option.Rel Refines (a' <|> b') (a <|> b) := by
  cases ha with
  | some h => exact .some h
  | none => exact hb

end Refines
end Transition

open Transition (Refines)

section Grown

variable {old new : ConstantPool}

namespace Step

/-- A constant that could be loaded has the same type in a later pool. -/
theorem constantType_grown (hgrown : Grown old new) (index : UInt16) (t : SlotType)
    (h : constantType old index = .ok t) : constantType new index = .ok t := by
  obtain ⟨c, hc, hend⟩ := bind_eq_ok.1 h
  refine bind_eq_ok.2 ⟨c, hgrown.get hc, ?_⟩
  cases c with
  | dynamic bootstrap member =>
    obtain ⟨⟨name, descriptor⟩, hmember, hend⟩ := bind_eq_ok.1 hend
    exact bind_eq_ok.2 ⟨(name, descriptor), hgrown.getNameAndType hmember, hend⟩
  | _ => exact hend

/-- Fields are accessed alike: their descriptor is looked up, and all else is about the stack. -/
theorem fieldAccess_grown (hgrown : Grown old new) (opcode : UInt8) (index : UInt16) :
    Refines (fieldAccess new opcode index) (fieldAccess old opcode index) :=
  .bind (.lift fun _ => hgrown.getMember) fun _ => .refl _

theorem call_grown (hgrown : Grown old new) (method : EnclosingMethod) (opcode : UInt8)
    (index : UInt16) : Refines (call new method opcode index) (call old method opcode index) :=
  .bind (.lift fun _ => hgrown.getMember) fun _ => .refl _

/-- A dynamic call looks its name and type up, in two steps. -/
theorem dynamicCall_grown (hgrown : Grown old new) (index : UInt16) :
    Refines (dynamicCall new index) (dynamicCall old index) := by
  refine .bind (.lift fun _ => hgrown.get) fun c => ?_
  cases c with
  | invokeDynamic bootstrap member =>
    exact .bind (.lift fun _ => hgrown.getNameAndType) fun _ => .refl _
  | _ => exact .refl _

theorem newMultiArray_grown (hgrown : Grown old new) (i : Instruction) :
    Refines (newMultiArray new i) (newMultiArray old i) :=
  .bind (.refl _) fun _ => .bind (.refl _) fun _ => .bind (.refl _) fun _ =>
    .bind (.lift fun _ => hgrown.getClassName) fun _ => .refl _

/-- The instructions that name a slot. Of these only the loads of constants look at the pool. -/
theorem slotAccess?_grown (hgrown : Grown old new) (i : Instruction) :
    Option.Rel Refines (slotAccess? new i) (slotAccess? old i) := by
  have hconstant : ∀ index,
      Refines (do MachineState.push (← constantType new index))
        (do MachineState.push (← constantType old index)) := fun index =>
    .bind (.lift (constantType_grown hgrown index)) fun _ => .refl _
  unfold slotAccess?
  simp only
  split_ifs
  · exact .some (.bind (.refl _) fun _ => hconstant _)
  · exact .some (.bind (.refl _) fun _ => hconstant _)
  all_goals first | exact .some (.refl _) | exact .none

/-- The instructions that name a member. -/
theorem memberAccess?_grown (hgrown : Grown old new) (method : EnclosingMethod) (i : Instruction) :
    Option.Rel Refines (memberAccess? new method i) (memberAccess? old method i) := by
  unfold memberAccess?
  simp only
  split_ifs
  · exact .some (.refl _)
  · exact .some (.bind (.refl _) fun _ => fieldAccess_grown hgrown _ _)
  · exact .some (.bind (.refl _) fun _ => call_grown hgrown _ _ _)
  · exact .some (.bind (.refl _) fun _ => dynamicCall_grown hgrown _)
  · exact .none

/-- The instructions that make or use references look class names up. -/
theorem referenceUse?_grown (hgrown : Grown old new) (pc : Nat) (i : Instruction) :
    Option.Rel Refines (referenceUse? new pc i) (referenceUse? old pc i) := by
  -- Arrays of references and casts look one class up behind what they drop.
  have hclass : ∀ f : String → SlotType,
      Refines (do
          MachineState.drop 1
          MachineState.push (f (← new.getClassName (← wordOperand i))))
        (do
          MachineState.drop 1
          MachineState.push (f (← old.getClassName (← wordOperand i)))) := fun f =>
    .bind (.refl _) fun _ => .bind (.refl _) fun _ =>
      .bind (.lift fun _ => hgrown.getClassName) fun _ => .refl _
  unfold referenceUse?
  simp only
  split_ifs
  · exact .some (.refl _)
  · exact .some (.refl _)
  · exact .some (.refl _)
  · exact .some (hclass fun name => .reference (referenceArray name))
  · exact .some (hclass .reference)
  · exact .some (newMultiArray_grown hgrown i)
  · exact .none

end Step

/-- **An instruction that was typed under a pool is typed the same under a grown one.** It is in one
of the groups, and the groups are tried in the same order. -/
theorem step_grown (hgrown : Grown old new) (method : EnclosingMethod) (pc : Nat) (i : Instruction) :
    Refines (step new method pc i) (step old method pc i) := by
  have hrest := Refines.orElse (Step.slotAccess?_grown hgrown i)
    (Refines.orElse (Step.memberAccess?_grown hgrown method i) (Step.referenceUse?_grown hgrown pc i))
  unfold step
  simp only
  -- Fixed effects and stack shuffles do not look at the pool.
  split
  · exact .refl _
  · split_ifs
    · exact .refl _
    · exact .refl _
    · generalize (Step.slotAccess? new i <|> Step.memberAccess? new method i
        <|> Step.referenceUse? new pc i) = fresh at hrest
      generalize (Step.slotAccess? old i <|> Step.memberAccess? old method i
        <|> Step.referenceUse? old pc i) = known at hrest
      cases hrest with
      | some h => exact h
      | none => exact .refl _

/-! ## Passes

A pass goes the same way in a larger pool, since each of its steps does. -/

namespace Pass

/-- Under a grown pool, going through an instruction does the same. Frames are merged in a hierarchy
that does not change with the pool. -/
theorem visit_grown {h : Hierarchy} {method : EnclosingMethod} (hgrown : Grown old new)
    {handlers : List ExceptionHandler} {flow after : Flow} {entry : Nat × Instruction}
    (hvisit : visit { hierarchy := h, pool := old, method } handlers flow entry = .ok after) :
    visit { hierarchy := h, pool := new, method } handlers flow entry = .ok after := by
  obtain ⟨pc, i⟩ := entry
  obtain ⟨arrived, harrive, hnone | ⟨current, left, shielded, hcurrent, hprotect, hstep, hleave⟩⟩ :=
    visit_eq_ok.1 hvisit
  · exact visit_eq_ok.2 ⟨arrived, harrive, .inl hnone⟩
  · have hnew := step_grown hgrown method pc i current _ hstep
    exact visit_eq_ok.2 ⟨arrived, harrive,
      .inr ⟨current, left, shielded, hcurrent, hprotect, hnew, hleave⟩⟩

/-- **Under a grown pool, a pass does the same**, from whatever table it starts. -/
theorem run_grown {h : Hierarchy} {method : EnclosingMethod} (hgrown : Grown old new)
    {handlers : List ExceptionHandler} {instructions : List (Nat × Instruction)}
    {start : MachineState} {table next : FrameTable}
    (hrun : run { hierarchy := h, pool := old, method } handlers instructions start table
      = .ok next) :
    run { hierarchy := h, pool := new, method } handlers instructions start table = .ok next := by
  obtain ⟨state, hvisits⟩ := run_eq_ok.1 hrun
  refine run_eq_ok.2 ⟨state, ?_⟩
  clear hrun
  generalize ({ table, state := some start } : Flow) = flow at hvisits ⊢
  induction instructions generalizing flow with
  | nil => exact hvisits
  | cons entry instructions ih =>
    rw [List.foldlM_cons] at hvisits ⊢
    obtain ⟨after, hvisit, hrest⟩ := bind_eq_ok.1 hvisits
    exact bind_eq_ok.2 ⟨after, visit_grown hgrown hvisit, ih after hrest⟩

end Pass
end Grown
end ClassLoom.Typing
