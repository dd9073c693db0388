import ClassLoom.Proofs.Computation
import ClassLoom.Proofs.Typing.SlotValues
import ClassLoom.Typing.Step
import Mathlib.Data.Option.Basic
import Mathlib.Tactic.SplitIfs

/-!
# Local variable slots that instructions leave

A wide value takes two local variable slots, its type and an unused one. Instructions keep it so
(`SlotType.Shaped`), whatever they find on the stack: a store that hits one half of a wide value
takes the other half out of use, and one that is given half of a wide value makes room for both.
On the stack there is no such thing, as instructions may pull wide values apart there.

The one other transition that changes local variables is `construct`; it replaces types that are
neither wide nor unused.

* `SlotType.Paired.shaped_iff`: the two ways to say how slots are laid out;
* `MachineState.shaped_storeAt`: stores;
* `step_keepsShape`: single instructions, all opcodes alike.
-/

namespace ClassLoom.Typing

/-! ## Slots

The layout is spelled out by positions in `Shaped`, since this is how it is read off a table. For
inductions the form that follows the list is better: `Paired` takes a wide value off the front
together with its second half. The two say the same (`shaped_iff`). -/

namespace SlotType

/-- Whether there are exactly so many slots, and every wide type among them is followed by an
unused slot. -/
structure Shaped (count : Nat) (slots : List SlotType) : Prop where
  length : slots.length = count
  second : ∀ i t, slots[i]? = some t → t.isWide = true → slots[i + 1]? = some top

/-- A wide value has its second half behind it. The induction takes one slot or two at a time, so
the position moves by one or by two. -/
theorem Paired.second {slots : List SlotType} (h : Paired slots) {i : Nat} {t : SlotType}
    (hi : slots[i]? = some t) (ht : t.isWide = true) : slots[i + 1]? = some top := by
  induction h generalizing i with
  | nil => cases hi
  -- The slot in front is no wide value, and any other is found further on.
  | @narrow s rest hs _ ih =>
    cases i with
    | zero =>
      cases hi
      rw [hs] at ht
      cases ht
    | succ i => exact ih hi
  -- The position is that of the value, that of its second half, or one behind both.
  | @wide s rest _ _ ih =>
    match i with
    | 0 => rfl
    | 1 =>
      cases hi
      cases ht
    | i + 2 => exact ih hi

/-- Conversely, slots in which every wide value has a second half can be taken off in pairs. The
induction follows the way in which values are read off slots. -/
theorem Paired.of_second {slots : List SlotType}
    (h : ∀ i t, slots[i]? = some t → t.isWide = true → slots[i + 1]? = some top) :
    Paired slots := by
  induction slots using valuesOf.induct with
  | case1 => exact .nil
  | case2 s =>
    refine .narrow (Bool.eq_false_iff.2 fun hs => ?_) .nil
    cases h 0 s rfl hs
  | case3 s t rest hs ih =>
    obtain rfl : t = top := Option.some.inj (h 0 s rfl hs)
    exact .wide hs (ih fun i => h (i + 2))
  | case4 s t rest hs ih => exact .narrow (Bool.eq_false_iff.2 hs) (ih fun i => h (i + 1))

theorem shaped_iff {count : Nat} {slots : List SlotType} :
    Shaped count slots ↔ slots.length = count ∧ Paired slots :=
  ⟨fun h => ⟨h.length, .of_second h.second⟩, fun h => ⟨h.1, fun _ _ => h.2.second⟩⟩

/-- Slots keep their layout if some types, neither wide nor unused, are replaced by others that are
not wide. Nothing is torn apart, and no second half goes. -/
theorem Shaped.map {count : Nat} {slots : List SlotType} {f : SlotType → SlotType}
    (h : Shaped count slots) (htop : f top = top)
    (hwide : ∀ t, (f t).isWide = true → t.isWide = true) : Shaped count (slots.map f) where
  length := by rw [List.length_map, h.length]
  second i t hi ht := by
    rw [List.getElem?_map] at hi ⊢
    obtain ⟨s, hs, rfl⟩ := Option.map_eq_some_iff.1 hi
    rw [h.second i s hs (hwide s ht), Option.map_some, htop]

end SlotType

open SlotType (Shaped)

/-! ## Transitions

A transition of the machine changes local variables by a store only, or by giving a type to what a
constructor call has made. All others are about the stack, and there is one lemma for those
(`KeepsShape.of_locals`). -/

namespace MachineState

/-- Every slot after a store: the value with its second half, and the half of another value that it
may leave in front. What is left of a wide value is unusable, and becomes an unused slot. -/
theorem getElem?_storeAt {slot : Nat} {value : SlotType} {locals : List SlotType}
    (hroom : slot + (if value.isWide then 2 else 1) ≤ locals.length) (i : Nat) :
    (storeAt slot value locals)[i]?
      = if i = slot then some value
        else if i = slot + 1 ∧ value.isWide = true then some .top
        else if i + 1 = slot ∧ (locals[i]?.map SlotType.isWide).getD false = true then some .top
        else locals[i]? := by
  unfold storeAt
  cases slot with
  | zero =>
    cases hvalue : value.isWide <;> simp only [hvalue] at hroom ⊢ <;> grind
  | succ before =>
    cases hbefore : (locals[before]?.map SlotType.isWide).getD false <;>
      cases hvalue : value.isWide <;> simp only [hvalue, hbefore] at hroom ⊢ <;> grind

/-- A store changes no number of slots, wherever it is. -/
theorem length_storeAt (slot : Nat) (value : SlotType) (locals : List SlotType) :
    (storeAt slot value locals).length = locals.length := by
  unfold storeAt
  cases slot with
  | zero => cases value.isWide <;> simp
  | succ before =>
    cases hbefore : (locals[before]?.map SlotType.isWide).getD false <;>
      cases value.isWide <;> simp [hbefore]

/-- **A store keeps wide values whole.** A value of which it overwrites one half loses the other
half, too, and the value that is stored has both. -/
theorem shaped_storeAt {count slot : Nat} {value : SlotType} {locals : List SlotType}
    (h : Shaped count locals) (hroom : slot + (if value.isWide then 2 else 1) ≤ locals.length) :
    Shaped count (storeAt slot value locals) where
  length := by rw [length_storeAt, h.length]
  second i t hi ht := by
    rw [getElem?_storeAt hroom] at hi ⊢
    by_cases hhere : i = slot
    · -- The value that is stored has its second half behind it.
      rw [if_pos hhere, Option.some.injEq] at hi
      rw [if_neg (by omega), if_pos ⟨by omega, by rw [hi, ht]⟩]
    rw [if_neg hhere] at hi
    split at hi
    · cases hi
      cases ht
    split at hi
    · cases hi
      cases ht
    · next hwhole =>
      -- Another wide value, which is not in front of the slot, as it would have lost its use.
      have hbefore : i + 1 ≠ slot := fun hbefore => hwhole ⟨hbefore, by rw [hi]; exact ht⟩
      rw [if_neg hbefore, if_neg (by omega), h.second i t hi ht, ite_self]

end MachineState

namespace Transition

/-- Whether a transition keeps the layout of local variable slots, wherever it succeeds. -/
def KeepsShape {α : Type} (count : Nat) (t : Transition α) : Prop :=
  ∀ ⦃s a s'⦄, t s = .ok (a, s') → Shaped count s.locals → Shaped count s'.locals

section KeepsShape

variable {α β : Type} {count : Nat}

theorem KeepsShape.pure (a : α) : KeepsShape count (Pure.pure a : Transition α) := by
  intro s b s' h hs
  cases h
  exact hs

theorem KeepsShape.throw (e : ClassError) :
    KeepsShape count (MonadExcept.throw e : Transition α) := by
  intro s b s' h
  cases h

/-- Transitions that keep the layout do so one behind the other. -/
theorem KeepsShape.bind {x : Transition α} {f : α → Transition β} (hx : KeepsShape count x)
    (hf : ∀ a, KeepsShape count (f a)) : KeepsShape count (x >>= f) := by
  intro s b s' h hs
  obtain ⟨a, mid, ha, hend⟩ := stateT_bind_eq_ok.1 h
  exact hf a hend (hx ha hs)

/-- A transition behind a computation that only looks something up. The computation may fail, and
then there is nothing to keep. -/
theorem KeepsShape.lift_bind {x : Except ClassError α} {f : α → Transition β}
    (hf : ∀ a, x = .ok a → KeepsShape count (f a)) : KeepsShape count (liftM x >>= f) := by
  intro s b s' h hs
  obtain ⟨a, hx, hend⟩ := stateT_lift_bind_eq_ok.1 h
  exact hf a hx hend hs

/-- Transitions of the stack leave local variables alone, so they keep any layout. -/
theorem KeepsShape.of_locals {t : Transition α}
    (h : ∀ s a s', t s = .ok (a, s') → s'.locals = s.locals) : KeepsShape count t := by
  intro s a s' ht hs
  rw [h s a s' ht]
  exact hs

end KeepsShape
end Transition

open Transition (KeepsShape)

namespace MachineState

variable {count : Nat}

theorem keepsShape_push (value : SlotType) : KeepsShape count (push value) :=
  .of_locals fun _ _ _ h => by
    cases h
    rfl

theorem keepsShape_drop (slots : Nat) : KeepsShape count (drop slots) :=
  .of_locals fun _ _ _ h => by
    unfold drop at h
    split at h
    · cases h
      rfl
    · cases h

theorem keepsShape_pop : KeepsShape count pop :=
  .of_locals fun _ _ _ h => by
    unfold pop at h
    split at h
    · cases h
    · split at h <;> cases h <;> rfl
    · cases h
      rfl

theorem keepsShape_clear : KeepsShape count clear :=
  .of_locals fun _ _ _ h => by
    cases h
    rfl

theorem keepsShape_dup (taken under : Nat) : KeepsShape count (dup taken under) :=
  .of_locals fun _ _ _ h => by
    unfold dup at h
    simp only at h
    split at h
    · cases h
      rfl
    · cases h

theorem keepsShape_swap : KeepsShape count swap :=
  .of_locals fun _ _ _ h => by
    unfold swap at h
    split at h
    · cases h
      rfl
    · cases h

theorem keepsShape_load (slot : Nat) : KeepsShape count (load slot) :=
  .of_locals fun _ _ _ h => by
    unfold load at h
    split at h
    · cases h
      rfl
    · cases h

/-- A store keeps the layout, by what it does to the list of slots. -/
theorem keepsShape_store (slot : Nat) (value : SlotType) : KeepsShape count (store slot value) := by
  intro s a s' h hs
  unfold store at h
  by_cases hroom : slot + (if value.isWide then 2 else 1) ≤ s.locals.length
  · rw [if_pos hroom] at h
    cases h
    exact shaped_storeAt hs hroom
  · rw [if_neg hroom] at h
    cases h

/-- The types that a constructor call replaces are neither wide nor unused, and the class that comes
in their place is not wide either. -/
theorem keepsShape_construct {receiver : SlotType} (hreceiver : receiver ≠ .top) (name : String) :
    KeepsShape count (construct receiver name) := by
  intro s a s' h hs
  cases h
  refine hs.map (if_neg fun htop => hreceiver htop.symm) fun t ht => ?_
  split at ht
  · cases ht
  · exact ht

end MachineState

/-! ## Instructions

Each group of instructions is a combination of these transitions. What an instruction looks up in
the pool first is of no account. -/

open MachineState

namespace Step

variable {count : Nat} (pool : ConstantPool) (method : EnclosingMethod) (i : Instruction)

/-- The instructions with a fixed effect take values off the stack and put values on it. -/
theorem keepsShape_effect (effect : Effect) : KeepsShape count effect.apply := by
  refine (keepsShape_drop _).bind fun _ => ?_
  cases effect.pushes with
  | none => exact .pure _
  | some value => exact keepsShape_push value

theorem keepsShape_load (family slot : Nat) : KeepsShape count (load family slot) :=
  (MachineState.keepsShape_load slot).bind fun _ => keepsShape_push _

theorem keepsShape_store (slot : Nat) : KeepsShape count (store slot) :=
  keepsShape_pop.bind fun value => MachineState.keepsShape_store slot value

theorem keepsShape_pushResult (result : ReturnType) : KeepsShape count (pushResult result) := by
  cases result with
  | void => exact .pure _
  | value type => exact keepsShape_push _

theorem keepsShape_fieldAccess (opcode : UInt8) (index : UInt16) :
    KeepsShape count (fieldAccess pool opcode index) := by
  have hpush (ref : MemberRef) : KeepsShape count (do
      push (.ofField (← FieldType.parse ref.descriptor))) :=
    .lift_bind fun _ _ => keepsShape_push _
  refine .lift_bind fun ref _ => ?_
  split_ifs
  · exact hpush ref
  · exact .lift_bind fun _ _ => keepsShape_drop _
  · exact (keepsShape_drop 1).bind fun _ => hpush ref
  · exact .lift_bind fun _ _ => (keepsShape_drop _).bind fun _ => keepsShape_drop 1

/-- A call takes its operands, constructs if it is a constructor call, and pushes its result. The
state stays one in which no wide value is torn apart. -/
theorem keepsShape_call (opcode : UInt8) (index : UInt16) :
    KeepsShape count (call pool method opcode index) := by
  refine .lift_bind fun target _ => .lift_bind fun descriptor _ =>
    (keepsShape_drop _).bind fun _ => ?_
  split
  · refine keepsShape_pop.bind fun receiver => ?_
    split
    · refine .lift_bind fun name hname => ?_
      have hreceiver : receiver ≠ .top := by
        rintro rfl
        cases hname
      exact (keepsShape_construct hreceiver name).bind fun _ => keepsShape_pushResult _
    · exact keepsShape_pushResult _
  · exact keepsShape_pushResult _

theorem keepsShape_dynamicCall (index : UInt16) : KeepsShape count (dynamicCall pool index) := by
  refine .lift_bind fun c _ => ?_
  split
  · exact .lift_bind fun _ _ => .lift_bind fun _ _ =>
      (keepsShape_drop _).bind fun _ => keepsShape_pushResult _
  · exact .throw _

theorem keepsShape_newMultiArray : KeepsShape count (newMultiArray pool i) :=
  .lift_bind fun _ _ => (keepsShape_drop _).bind fun _ =>
    .lift_bind fun _ _ => .lift_bind fun _ _ => keepsShape_push _

/-- The forms with a wide index load and store like the others, and `iinc` only reads. -/
theorem keepsShape_wide : KeepsShape count (wide i) := by
  refine .lift_bind fun inner _ => .lift_bind fun _ _ => .lift_bind fun _ _ => ?_
  simp only
  split_ifs
  · exact keepsShape_load _ _
  · exact keepsShape_store _
  · exact .pure _
  · exact .throw _

theorem keepsShape_shuffle (op : UInt8) : KeepsShape count (shuffle op) := by
  unfold shuffle
  split
  all_goals first | exact keepsShape_dup _ _ | exact keepsShape_swap

/-- The instructions that name a slot. -/
theorem keepsShape_slotAccess? {t : Transition Unit} (h : slotAccess? pool i = some t) :
    KeepsShape count t := by
  have hconstant (index : UInt16) : KeepsShape count (do push (← constantType pool index)) :=
    .lift_bind fun _ _ => keepsShape_push _
  unfold slotAccess? at h
  simp only at h
  split_ifs at h
  all_goals cases h
  · exact .lift_bind fun _ _ => hconstant _
  · exact .lift_bind fun _ _ => hconstant _
  · exact .lift_bind fun _ _ => keepsShape_load _ _
  · exact keepsShape_load _ _
  · exact .lift_bind fun _ _ => keepsShape_store _
  · exact keepsShape_store _
  · exact keepsShape_wide i

/-- The instructions that name a member. -/
theorem keepsShape_memberAccess? {t : Transition Unit} (h : memberAccess? pool method i = some t) :
    KeepsShape count t := by
  unfold memberAccess? at h
  simp only at h
  split_ifs at h
  all_goals cases h
  · exact keepsShape_clear
  · exact .lift_bind fun _ _ => keepsShape_fieldAccess pool _ _
  · exact .lift_bind fun _ _ => keepsShape_call pool method _ _
  · exact .lift_bind fun _ _ => keepsShape_dynamicCall pool _

/-- The instructions that make or use references. -/
theorem keepsShape_referenceUse? {pc : Nat} {t : Transition Unit}
    (h : referenceUse? pool pc i = some t) : KeepsShape count t := by
  unfold referenceUse? at h
  simp only at h
  split_ifs at h
  all_goals cases h
  · exact keepsShape_push _
  · exact (keepsShape_drop 1).bind fun _ => keepsShape_pop.bind fun _ =>
      .lift_bind fun _ _ => keepsShape_push _
  · exact (keepsShape_drop 1).bind fun _ => .lift_bind fun _ _ =>
      .lift_bind fun _ _ => keepsShape_push _
  · exact (keepsShape_drop 1).bind fun _ => .lift_bind fun _ _ =>
      .lift_bind fun _ _ => keepsShape_push _
  · exact (keepsShape_drop 1).bind fun _ => .lift_bind fun _ _ =>
      .lift_bind fun _ _ => keepsShape_push _
  · exact keepsShape_newMultiArray pool i

end Step

/-- **Instructions keep the layout of local variable slots**, whatever they find on the stack. The
cases are the groups that an instruction can belong to; the last of them fails. -/
theorem step_keepsShape (count : Nat) (pool : ConstantPool) (method : EnclosingMethod) (pc : Nat)
    (i : Instruction) : KeepsShape count (step pool method pc i) := by
  unfold step
  simp only
  split
  · exact Step.keepsShape_effect _
  · split_ifs
    · exact Step.keepsShape_shuffle _
    · exact .throw _
    · split
      · next t ht =>
        rcases (Option.orElse_eq_some _ _ _).1 ht with hslot | ⟨_, ht⟩
        · exact Step.keepsShape_slotAccess? pool i hslot
        · rcases (Option.orElse_eq_some _ _ _).1 ht with hmember | ⟨_, hreference⟩
          · exact Step.keepsShape_memberAccess? pool method i hmember
          · exact Step.keepsShape_referenceUse? pool i hreference
      · exact .throw _

end ClassLoom.Typing
