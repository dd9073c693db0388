import ClassLoom.Proofs.Typing.FrameOrder
import Mathlib.Logic.Relation

/-!
# Slots move one at a time

All that happens to frames is that single slots move on, each because it is given a value that it
does not take (`SlotType.Moves`), and on the operand stack never to the unused slot. Merges, and
with them everything that a pass does to a table of frames, are rows of such moves; what every
move keeps, the whole analysis keeps.

* `MachineState.moved_of_merge`, `FrameTable.moved_of_modify`: merges are rows of moves;
* `FrameTable.Moved.forall₂`, `FrameTable.Moved.widensTo`: what a row of moves makes of the frames.
-/

namespace ClassLoom.Typing

open Relation (ReflTransGen)

/-! ## Lists of which one item changes

A merge changes several slots at a time. For counting changes it is better to take them one by one,
so a list that changes is led over lists of which only one item changes each time. -/

/-- One item of a list changes as `R` allows, and all others stay. -/
inductive ChangesOne {α : Type} (R : α → α → Prop) : List α → List α → Prop where
  | here {a b : α} {rest : List α} (hchange : R a b) : ChangesOne R (a :: rest) (b :: rest)
  | there {a : α} {rest rest' : List α} (hrest : ChangesOne R rest rest') :
    ChangesOne R (a :: rest) (a :: rest')

section ChangesOne

variable {α : Type} {R S : α → α → Prop} {xs ys : List α}

/-- A list of which one item changes is related to what it becomes, item by item. -/
theorem ChangesOne.forall₂ (hrefl : ∀ a, S a a) (hchange : ∀ a b, R a b → S a b)
    (h : ChangesOne R xs ys) : List.Forall₂ S xs ys := by
  induction h with
  | here h => exact .cons (hchange _ _ h) (List.forall₂_same.2 fun a _ => hrefl a)
  | there _ ih => exact .cons (hrefl _) ih

/-- If each item of a list is led to another by steps, so is the list, by steps that change one item
each. -/
theorem reflTransGen_changesOne (h : List.Forall₂ (ReflTransGen R) xs ys) :
    ReflTransGen (ChangesOne R) xs ys := by
  induction h with
  | nil => exact .refl
  | @cons a b xs ys hhead _ ih =>
    -- The first item goes all its way before the others start.
    have hfirst : ReflTransGen (ChangesOne R) (a :: xs) (b :: xs) :=
      hhead.lift (· :: xs) fun _ _ => .here
    exact hfirst.trans (ih.lift (b :: ·) fun _ _ => .there)

end ChangesOne

variable {h : Hierarchy}

/-! ## Slots

A slot that gets a value which it does not take `Moves`: it goes up the chain of its superclasses,
or becomes unused. -/

namespace SlotType

/-- A slot is given a value that it does not take, and moves on. -/
def Moves (h : Hierarchy) (old new : SlotType) : Prop :=
  ∃ value, isAssignable h value old = false ∧ new = widen h old value

theorem Moves.widensTo {old new : SlotType} (hmove : Moves h old new) : WidensTo h old new := by
  obtain ⟨value, _, rfl⟩ := hmove
  exact widensTo_widen old value

/-- A slot that is given a value stays, or moves once. -/
theorem widen_eq_or_moves (slot value : SlotType) :
    widen h slot value = slot ∨ Moves h slot (widen h slot value) := by
  cases hyes : isAssignable h value slot with
  | true => exact .inl (widen_eq_self_iff.2 hyes)
  | false => exact .inr ⟨value, hyes, rfl⟩

theorem not_moves_top {new : SlotType} : ¬ Moves h top new := by
  rintro ⟨value, hno, _⟩
  unfold isAssignable at hno
  cases hno

end SlotType

/-! ## States

Merging a state into a frame is a row of moves of single slots: of the locals first, and of the
stack then. -/

namespace MachineState

/-- One slot of a state moves on. A stack slot stays usable. -/
inductive Moves (h : Hierarchy) : MachineState → MachineState → Prop where
  | ofLocals {locals locals' stack : List SlotType}
      (hmove : ChangesOne (SlotType.Moves h) locals locals') :
      Moves h { locals, stack } { locals := locals', stack }
  | ofStack {locals stack stack' : List SlotType}
      (hmove : ChangesOne (fun old new => SlotType.Moves h old new ∧ new ≠ .top) stack stack') :
      Moves h { locals, stack } { locals, stack := stack' }

/-- A state of which one slot moves widens. -/
theorem Moves.widensTo {old new : MachineState} (hmove : Moves h old new) : WidensTo h old new := by
  cases hmove with
  | ofLocals hmove =>
    exact ⟨hmove.forall₂ .refl fun _ _ => SlotType.Moves.widensTo,
      List.forall₂_same.2 fun t _ => .refl t⟩
  | ofStack hmove =>
    exact ⟨List.forall₂_same.2 fun t _ => .refl t,
      hmove.forall₂ .refl fun _ _ hslot => hslot.1.widensTo⟩

/-- Merging locals is a row of moves, one for each slot that does not take its value. A slot that
takes the value already stays where it is. -/
theorem moved_of_mergeLocals {slots values merged : List SlotType}
    (hmerge : mergeLocals h slots values = .ok merged) :
    ReflTransGen (ChangesOne (SlotType.Moves h)) slots merged := by
  obtain ⟨hlength, rfl⟩ := mergeLocals_eq_ok.1 hmerge
  refine reflTransGen_changesOne ?_
  clear hmerge
  induction slots generalizing values with
  | nil => exact .nil
  | cons slot slots ih =>
    cases values with
    | nil => cases hlength
    | cons value values =>
      refine .cons ?_ (ih (Nat.succ.inj hlength))
      rcases SlotType.widen_eq_or_moves (h := h) slot value with hsame | hmove
      · rw [hsame]
      · exact .single hmove

/-- The same of a stack, where no slot becomes unused by it. -/
theorem moved_of_mergeStack {slots values merged : List SlotType}
    (hmerge : mergeStack h slots values = .ok merged) :
    ReflTransGen (ChangesOne fun old new => SlotType.Moves h old new ∧ new ≠ .top) slots
      merged := by
  obtain ⟨hlength, hmerged, hkept⟩ := mergeStack_eq_ok.1 hmerge
  -- Slot by slot, where each slot stays or moves on by itself.
  refine reflTransGen_changesOne ?_
  clear hmerge
  induction hkept generalizing values with
  | nil => exact .nil
  | @cons slot new slots merged hhead _ ih =>
    cases values with
    | nil => cases hlength
    | cons value values =>
      obtain ⟨rfl, hrest⟩ := List.cons.inj hmerged
      refine .cons ?_ (ih (Nat.succ.inj hlength) hrest)
      rcases SlotType.widen_eq_or_moves (h := h) slot value with hsame | hmove
      · rw [hsame]
      · -- A slot that is not used takes every value, so this one has not lost its use.
        refine .single ⟨hmove, fun hlost => ?_⟩
        rw [hhead hlost] at hmove
        exact SlotType.not_moves_top hmove

theorem moved_locals {locals locals' stack : List SlotType}
    (hmoved : ReflTransGen (ChangesOne (SlotType.Moves h)) locals locals') :
    ReflTransGen (Moves h) { locals, stack } { locals := locals', stack } :=
  hmoved.lift (fun slots => ({ locals := slots, stack } : MachineState)) fun _ _ => .ofLocals

/-- **Merging a state into a frame is a row of moves.** It is the locals' row, with the stack's
behind it. -/
theorem moved_of_merge {frame incoming merged : MachineState}
    (hmerge : frame.merge h incoming = .ok merged) : ReflTransGen (Moves h) frame merged := by
  obtain ⟨locals, hlocals, hmerge⟩ := bind_eq_ok.1 hmerge
  obtain ⟨stack, hstack, hend⟩ := bind_eq_ok.1 hmerge
  cases hend
  have hstacks : ReflTransGen (Moves h) { locals, stack := frame.stack } { locals, stack } :=
    (moved_of_mergeStack hstack).lift (fun slots => ({ locals, stack := slots } : MachineState))
      fun _ _ => .ofStack
  exact (moved_locals (moved_of_mergeLocals hlocals)).trans hstacks

end MachineState

/-! ## Tables

The same of whole tables, in which one frame changes at a time. Offsets must differ, since otherwise
a merge would be one into several frames. -/

namespace FrameTable

variable {table next : FrameTable}

/-- One slot of one frame moves on. -/
def Moves (h : Hierarchy) : FrameTable → FrameTable → Prop :=
  ChangesOne fun old new => old.1 = new.1 ∧ MachineState.Moves h old.2 new.2

/-- Whether a table has come from another one by a row of moves. -/
def Moved (h : Hierarchy) : FrameTable → FrameTable → Prop := ReflTransGen (Moves h)

theorem Moved.refl (table : FrameTable) : Moved h table table := ReflTransGen.refl

theorem Moved.trans {a b c : FrameTable} (hab : Moved h a b) (hbc : Moved h b c) : Moved h a c :=
  ReflTransGen.trans hab hbc

/-- Along a row of moves, frames stay at their offsets and become what single moves, one after the
other, can make of them. -/
theorem Moved.forall₂ {P : MachineState → MachineState → Prop} (hrefl : ∀ s, P s s)
    (htrans : ∀ s t u, P s t → P t u → P s u) (hmoves : ∀ s t, MachineState.Moves h s t → P s t)
    (hmoved : Moved h table next) :
    List.Forall₂ (fun old new => old.1 = new.1 ∧ P old.2 new.2) table next := by
  induction hmoved with
  | refl => exact List.forall₂_same.2 fun f _ => ⟨rfl, hrefl f.2⟩
  | tail _ hmove ih =>
    have hlast := ChangesOne.forall₂ (S := fun old new => old.1 = new.1 ∧ P old.2 new.2)
      (fun f => ⟨rfl, hrefl f.2⟩) (fun _ _ hframe => ⟨hframe.1, hmoves _ _ hframe.2⟩) hmove
    exact forall₂_trans
      (fun _ _ _ hfg hgk => ⟨hfg.1.trans hgk.1, htrans _ _ _ hfg.2 hgk.2⟩) ih hlast

/-- **Tables only widen along a row of moves.** -/
theorem Moved.widensTo (hmoved : Moved h table next) : WidensTo h table next :=
  hmoved.forall₂ .refl (fun _ _ _ => .trans) fun _ _ => MachineState.Moves.widensTo

/-- A table cannot be led away and back: it has widened both times, so that its rank would have
fallen. -/
theorem Moved.antisymm {a b : FrameTable} (hab : Moved h a b) (hba : Moved h b a) : a = b := by
  -- A table that has changed has a lower rank, so there is no way back.
  rcases hab.widensTo.eq_or_rank_lt with hsame | hlt
  · exact hsame.symm
  · rcases hba.widensTo.eq_or_rank_lt with hsame | hlt'
    · exact hsame
    · omega

theorem Moved.nodup (hmoved : Moved h table next) (hnodup : (table.map (·.1)).Nodup) :
    (next.map (·.1)).Nodup := by
  rw [hmoved.widensTo.offsets]
  exact hnodup

/-- A row of moves of one frame is a row of moves of the table. All other frames of the table
stay. -/
theorem moved_set {pc : Nat} {frame new : MachineState} (hnodup : (table.map (·.1)).Nodup)
    (hlookup : table.lookup pc = some frame)
    (hmoved : ReflTransGen (MachineState.Moves h) frame new) : Moved h table (table.set pc new) := by
  refine reflTransGen_changesOne ?_
  unfold set
  rw [List.forall₂_map_right_iff, List.forall₂_same]
  rintro ⟨offset, state⟩ hmem
  simp only
  -- Offsets are distinct, so the frame that is looked up is the one that is set.
  by_cases hhere : offset = pc
  · have hfound := lookup_of_mem hnodup hmem
    rw [hhere, hlookup, Option.some.injEq] at hfound
    rw [if_pos hhere, ← hfound, hhere]
    exact hmoved.lift (pc, ·) fun _ _ hmove => ⟨rfl, hmove⟩
  · rw [if_neg hhere]

/-- So is whatever leads a frame along such a row. -/
theorem moved_of_modify {pc : Nat} {f : MachineState → Except ClassError MachineState}
    (hnodup : (table.map (·.1)).Nodup)
    (hf : ∀ s t, f s = .ok t → ReflTransGen (MachineState.Moves h) s t)
    (hmodify : table.modify pc f = .ok next) : Moved h table next := by
  unfold modify at hmodify
  split at hmodify
  · next frame hlookup =>
    obtain ⟨new, hnew, hend⟩ := bind_eq_ok.1 hmodify
    cases hend
    exact moved_set hnodup hlookup (hf frame new hnew)
  · cases hmodify

/-- **Merging a state into the frame at an offset is a row of moves.** -/
theorem moved_of_merge {pc : Nat} {incoming : MachineState} (hnodup : (table.map (·.1)).Nodup)
    (hmerge : table.merge h pc incoming = .ok next) : Moved h table next :=
  moved_of_modify hnodup (fun _ _ => MachineState.moved_of_merge) hmerge

/-- The same where only locals are merged, as for exception handlers. -/
theorem moved_of_mergeLocals {pc : Nat} {incoming : MachineState}
    (hnodup : (table.map (·.1)).Nodup) (hmerge : table.mergeLocals h pc incoming = .ok next) :
    Moved h table next := by
  refine moved_of_modify hnodup (fun s t hst => ?_) hmerge
  obtain ⟨locals, hlocals, hend⟩ := bind_eq_ok.1 hst
  cases hend
  exact MachineState.moved_locals (MachineState.moved_of_mergeLocals hlocals)

end FrameTable
end ClassLoom.Typing
