import ClassLoom.Proofs.Computation
import ClassLoom.Proofs.Typing.SlotValues
import ClassLoom.Proofs.Typing.Widening
import Mathlib.Algebra.GroupWithZero.Nat

/-!
# Frames only widen

One state, or one table of frames, comes from another one by widening (`WidensTo`) if each slot
of it has stayed or has got a lower rank. What comes from a table by widening is the table itself
or has a lower rank, and its wide types still stand in front of unused slots.

* `MachineState.mergeLocals_eq_ok`, `MachineState.mergeStack_eq_ok`: what merges give;
* `FrameTable.WidensTo.eq_or_rank_lt`: tables change only by getting a lower rank.
-/

namespace ClassLoom.Typing

/-! ## Slots

A slot is merged with a value by widening. If the value does not fit, the slot gets a type of lower
rank, which is no wide one. So a row of slots that changes gets a lower sum of ranks, and there is a
bound for that sum (`ranks_le`). -/

namespace SlotType

variable {h : Hierarchy}

/-- Whether a slot can have come from another one by widening. -/
def WidensTo (h : Hierarchy) (old new : SlotType) : Prop :=
  new = old ∨ (rank h new < rank h old ∧ new.isWide = false)

theorem WidensTo.refl (t : SlotType) : WidensTo h t t := .inl rfl

/-- Widening twice is widening. Where both change the slot, its rank falls twice. -/
theorem WidensTo.trans {a b c : SlotType} (hab : WidensTo h a b) (hbc : WidensTo h b c) :
    WidensTo h a c := by
  rcases hbc with rfl | ⟨hlt, hnarrow⟩
  · exact hab
  · rcases hab with rfl | ⟨hlt', _⟩
    · exact .inr ⟨hlt, hnarrow⟩
    · exact .inr ⟨by omega, hnarrow⟩

/-- A slot is widened by merging any value into it: it stays if the value fits, and its rank falls
if not. -/
theorem widensTo_widen (slot value : SlotType) : WidensTo h slot (widen h slot value) := by
  cases hyes : isAssignable h value slot with
  | true => exact .inl (widen_eq_self_iff.2 hyes)
  | false => exact .inr (rank_widen hyes)

/-- An unused slot cannot change any more, since it has the lowest rank. -/
theorem widensTo_top {new : SlotType} (hnew : WidensTo h top new) : new = top := by
  rcases hnew with hsame | ⟨hlt, _⟩
  · exact hsame
  · exact absurd hlt (Nat.not_lt_zero _)

/-- The ranks of slots in a row together. -/
def ranks (h : Hierarchy) (slots : List SlotType) : Nat := (slots.map (rank h)).sum

theorem ranks_cons (s : SlotType) (slots : List SlotType) :
    ranks h (s :: slots) = rank h s + ranks h slots := by
  unfold ranks
  rw [List.map_cons, List.sum_cons]

/-- No slot has a rank above the limit for chains of superclasses and the three ranks beside
those. -/
theorem ranks_le (slots : List SlotType) : ranks h slots ≤ (chainLimit + 3) * slots.length := by
  induction slots with
  | nil => exact Nat.zero_le _
  | cons s slots ih =>
    have hle := rank_le (h := h) s
    rw [ranks_cons, List.length_cons, Nat.mul_succ]
    omega

/-- Slots that widen are the same or have lower ranks together. A slot by itself has a lower rank as
soon as it is another. -/
theorem eq_or_ranks_lt {old new : List SlotType} (hwidens : List.Forall₂ (WidensTo h) old new) :
    new = old ∨ ranks h new < ranks h old := by
  induction hwidens with
  | nil => exact .inl rfl
  | cons hhead _ ih =>
    rw [ranks_cons, ranks_cons]
    rcases hhead with rfl | ⟨hlt, _⟩
    · rcases ih with rfl | hlt
      · exact .inl rfl
      · exact .inr (by omega)
    · rcases ih with rfl | hlt'
      · exact .inr (by omega)
      · exact .inr (by omega)

/-- A wide type stays, or its two slots become narrow. So what was laid out in pairs stays laid out
in pairs. -/
theorem Paired.widened {old new : List SlotType} (hold : Paired old)
    (hwidens : List.Forall₂ (WidensTo h) old new) : Paired new := by
  induction hold generalizing new with
  | nil =>
    cases hwidens
    exact .nil
  | narrow hs _ ih =>
    obtain ⟨t, more, ht, hmore, rfl⟩ := List.forall₂_cons_left_iff.1 hwidens
    rcases ht with rfl | ⟨_, hnarrow⟩
    · exact .narrow hs (ih hmore)
    · exact .narrow hnarrow (ih hmore)
  -- The second half is an unused slot, so it stays. The first stays, or both are narrow now.
  | wide hs _ ih =>
    obtain ⟨t, rest, ht, hrest, rfl⟩ := List.forall₂_cons_left_iff.1 hwidens
    obtain ⟨u, more, hu, hmore, rfl⟩ := List.forall₂_cons_left_iff.1 hrest
    obtain rfl := widensTo_top hu
    rcases ht with rfl | ⟨_, hnarrow⟩
    · exact .wide hs (ih hmore)
    · exact .narrow hnarrow (.narrow rfl (ih hmore))

end SlotType

/-! ## States

Merging two states is merging their slots one by one, where they have the same number of them. A
slot of the stack must not lose its type; merging fails then. -/

namespace MachineState

variable {h : Hierarchy}

/-- Whether a state can have come from another one by widening. -/
structure WidensTo (h : Hierarchy) (old new : MachineState) : Prop where
  locals : List.Forall₂ (SlotType.WidensTo h) old.locals new.locals
  stack : List.Forall₂ (SlotType.WidensTo h) old.stack new.stack

theorem WidensTo.refl (s : MachineState) : WidensTo h s s where
  locals := List.forall₂_same.2 fun t _ => .refl t
  stack := List.forall₂_same.2 fun t _ => .refl t

theorem WidensTo.trans {a b c : MachineState} (hab : WidensTo h a b) (hbc : WidensTo h b c) :
    WidensTo h a c where
  locals := forall₂_trans (fun _ _ _ => .trans) hab.locals hbc.locals
  stack := forall₂_trans (fun _ _ _ => .trans) hab.stack hbc.stack

theorem Paired.widened {old new : MachineState} (hold : old.Paired) (hwidens : WidensTo h old new) :
    new.Paired where
  locals := hold.locals.widened hwidens.locals
  stack := hold.stack.widened (List.forall₂_reverse_iff.2 hwidens.stack)

/-- The ranks of all slots together. -/
def rank (h : Hierarchy) (s : MachineState) : Nat :=
  SlotType.ranks h s.locals + SlotType.ranks h s.stack

/-- The bound for a state follows from the number of its slots. -/
theorem rank_le (s : MachineState) :
    rank h s ≤ (chainLimit + 3) * (s.locals.length + s.stack.length) := by
  have hlocals := SlotType.ranks_le (h := h) s.locals
  have hstack := SlotType.ranks_le (h := h) s.stack
  unfold rank
  rw [Nat.mul_add]
  omega

/-- A state that widens is the same or has a lower rank. Its slots are those of its locals and those
of its stack. -/
theorem WidensTo.eq_or_rank_lt {old new : MachineState} (hwidens : WidensTo h old new) :
    new = old ∨ rank h new < rank h old := by
  unfold rank
  rcases SlotType.eq_or_ranks_lt hwidens.locals with hlocals | hlocals
  · rcases SlotType.eq_or_ranks_lt hwidens.stack with hstack | hstack
    · left
      cases old
      cases new
      cases hlocals
      cases hstack
      rfl
    · rw [hlocals]
      exact .inr (by omega)
  · rcases SlotType.eq_or_ranks_lt hwidens.stack with hstack | hstack
    · rw [hstack]
      exact .inr (by omega)
    · exact .inr (by omega)

/-- Locals are merged where there are as many on both sides, slot by slot. -/
theorem mergeLocals_eq_ok {slots values merged : List SlotType} :
    mergeLocals h slots values = .ok merged
      ↔ slots.length = values.length ∧ merged = List.zipWith (SlotType.widen h) slots values := by
  unfold mergeLocals
  split
  · next hlength =>
    constructor
    · intro hmerge
      cases hmerge
      exact ⟨hlength, rfl⟩
    · rintro ⟨_, rfl⟩
      rfl
  · next hlength =>
    constructor
    · intro hmerge
      cases hmerge
    · rintro ⟨habsurd, _⟩
      exact absurd habsurd hlength

/-- What a stack slot becomes that takes one more value. It may not become unusable, unless it was
so. -/
theorem mergeStackSlot_eq_ok {slot value merged : SlotType} :
    mergeStackSlot h slot value = .ok merged
      ↔ merged = SlotType.widen h slot value ∧ (merged = .top → slot = .top) := by
  simp only [mergeStackSlot]
  split
  -- The type is lost: the merge fails, and the right side asks for the contrary.
  · next hlost =>
    simp only [Bool.and_eq_true, decide_eq_true_eq] at hlost
    constructor
    · intro hmerge
      cases hmerge
    · rintro ⟨rfl, hkept⟩
      exact absurd (hkept hlost.1) hlost.2
  · next hkept =>
    simp only [Bool.and_eq_true, decide_eq_true_eq, not_and, not_not] at hkept
    constructor
    · intro hmerge
      cases hmerge
      exact ⟨rfl, hkept⟩
    · rintro ⟨rfl, _⟩
      rfl

/-- A stack is merged where it is as deep on both sides and no slot loses its type. A slot that was
unusable before may stay so. -/
theorem mergeStack_eq_ok {slots values merged : List SlotType} :
    mergeStack h slots values = .ok merged
      ↔ slots.length = values.length ∧ merged = List.zipWith (SlotType.widen h) slots values
        ∧ List.Forall₂ (fun slot new => new = .top → slot = .top) slots merged := by
  induction slots generalizing values merged with
  | nil =>
    cases values with
    | nil =>
      constructor
      · intro hmerge
        cases hmerge
        exact ⟨rfl, rfl, .nil⟩
      · rintro ⟨_, rfl, _⟩
        rfl
    | cons v values =>
      constructor
      · intro hmerge
        cases hmerge
      · rintro ⟨hlength, _⟩
        cases hlength
  | cons s slots ih =>
    cases values with
    | nil =>
      constructor
      · intro hmerge
        cases hmerge
      · rintro ⟨hlength, _⟩
        cases hlength
    | cons v values =>
      constructor
      · intro hmerge
        -- The first slots are merged, and then the rest.
        obtain ⟨t, ht, hmerge⟩ := bind_eq_ok.1 hmerge
        obtain ⟨more, hmore, hend⟩ := bind_eq_ok.1 hmerge
        cases hend
        obtain ⟨rfl, hkept⟩ := mergeStackSlot_eq_ok.1 ht
        obtain ⟨hlength, rfl, hkepts⟩ := ih.1 hmore
        exact ⟨congrArg Nat.succ hlength, rfl, .cons hkept hkepts⟩
      · rintro ⟨hlength, rfl, hkept⟩
        rw [List.zipWith_cons_cons, List.forall₂_cons] at hkept
        have hhead := mergeStackSlot_eq_ok.2 ⟨rfl, hkept.1⟩
        have htail := ih.2 ⟨Nat.succ.inj hlength, rfl, hkept.2⟩
        exact bind_eq_ok.2 ⟨_, hhead, bind_eq_ok.2 ⟨_, htail, rfl⟩⟩

end MachineState

/-! ## Tables

A table widens frame by frame. Its rank is the sum of theirs, and becomes lower with each change. -/

namespace FrameTable

variable {h : Hierarchy} {table next : FrameTable}

/-- Whether a table can have come from another one by widening. -/
def WidensTo (h : Hierarchy) (old new : FrameTable) : Prop :=
  List.Forall₂ (fun f g => f.1 = g.1 ∧ MachineState.WidensTo h f.2 g.2) old new

/-- A table that widens keeps its frames at their offsets. -/
theorem WidensTo.offsets {old new : FrameTable} (hwidens : WidensTo h old new) :
    new.map (·.1) = old.map (·.1) := by
  induction hwidens with
  | nil => rfl
  | cons hhead _ ih => rw [List.map_cons, List.map_cons, ih, hhead.1]

/-- The ranks of all slots in all frames together. -/
def rank (h : Hierarchy) (table : FrameTable) : Nat := (table.map fun f => f.2.rank h).sum

theorem rank_cons (f : Nat × MachineState) (table : FrameTable) :
    rank h (f :: table) = f.2.rank h + rank h table := by
  unfold rank
  rw [List.map_cons, List.sum_cons]

/-- So the rank of a table is bounded by the number of its slots, which no pass changes. -/
theorem rank_le (table : FrameTable) : rank h table ≤ (chainLimit + 3) * table.slotCount := by
  induction table with
  | nil => exact Nat.zero_le _
  | cons f table ih =>
    have hle := MachineState.rank_le (h := h) f.2
    have hcount : slotCount (f :: table)
        = (f.2.locals.length + f.2.stack.length) + slotCount table := rfl
    rw [rank_cons, hcount, Nat.mul_add]
    omega

/-- **A table that widens is the same or has a lower rank.** Together with the bound this ends the
passes over a body. -/
theorem WidensTo.eq_or_rank_lt {old new : FrameTable} (hwidens : WidensTo h old new) :
    new = old ∨ rank h new < rank h old := by
  induction hwidens with
  | nil => exact .inl rfl
  | @cons f g old new hhead _ ih =>
    obtain ⟨hoffset, hstate⟩ := hhead
    rw [rank_cons, rank_cons]
    rcases hstate.eq_or_rank_lt with hsame | hlt
    · have hfg : g = f := Prod.ext hoffset.symm hsame
      rw [hfg]
      rcases ih with rfl | hlt
      · exact .inl rfl
      · exact .inr (by omega)
    · rcases ih with rfl | hlt'
      · exact .inr (by omega)
      · exact .inr (by omega)

/-- The wide types in all frames stand in front of unused slots, and all frames have the same
number of local variables. -/
def Paired (maxLocals : Nat) (table : FrameTable) : Prop :=
  ∀ f ∈ table, f.2.Paired ∧ f.2.locals.length = maxLocals

/-- All frames of a table stay laid out in pairs. -/
theorem Paired.widened {maxLocals : Nat} {old new : FrameTable} (hold : Paired maxLocals old)
    (hwidens : WidensTo h old new) : Paired maxLocals new := by
  induction hwidens with
  | nil => exact hold
  | cons hhead _ ih =>
    obtain ⟨hf, hrest⟩ := List.forall_mem_cons.1 hold
    have hlength := hhead.2.locals.length_eq
    exact List.forall_mem_cons.2 ⟨⟨hf.1.widened hhead.2, by omega⟩, ih hrest⟩

/-- A frame of a table is found at its offset, since no other frame has that. -/
theorem lookup_of_mem {pc : Nat} {frame : MachineState} (hnodup : (table.map (·.1)).Nodup)
    (hmem : (pc, frame) ∈ table) : table.lookup pc = some frame := by
  induction table with
  | nil => cases hmem
  | cons f table ih =>
    rw [List.map_cons, List.nodup_cons] at hnodup
    rcases List.mem_cons.1 hmem with rfl | hmem
    · exact List.lookup_cons_self
    · have hother : pc ≠ f.1 := by
        rintro rfl
        exact hnodup.1 (List.mem_map.2 ⟨(f.1, frame), hmem, rfl⟩)
      rw [List.lookup_cons, beq_false_of_ne hother]
      exact ih hnodup.2 hmem

end FrameTable
end ClassLoom.Typing
