import ClassLoom.Typing.FrameTable
import Mathlib.Data.List.TakeWhile

/-!
# Slots and values

Frames list one type a value, states one type a slot. The two say the same of states in which
every wide type stands in front of an unused slot (`Paired`): writing the values of such a
state and reading them back gives the state.

* `SlotType.slotsOf_valuesOf`: slots and the values in them;
* `MachineState.ofValues_values`: states and the values in them, without those at the end of
  the locals that are not in use.
-/

namespace ClassLoom.Typing

namespace SlotType

/-- Slots in which every wide type is followed by an unused slot. -/
inductive Paired : List SlotType → Prop
  | nil : Paired []
  | narrow {s : SlotType} {rest : List SlotType} (hs : s.isWide = false) (hrest : Paired rest) :
      Paired (s :: rest)
  | wide {s : SlotType} {rest : List SlotType} (hs : s.isWide = true) (hrest : Paired rest) :
      Paired (s :: top :: rest)

/-- Slots of that form in two parts, neither of which tears a wide type apart. -/
theorem Paired.append {xs ys : List SlotType} (hxs : Paired xs) (hys : Paired ys) :
    Paired (xs ++ ys) := by
  induction hxs with
  | nil => exact hys
  | narrow hs _ ih => exact .narrow hs ih
  | wide hs _ ih => exact .wide hs ih

theorem Paired.replicate_top (n : Nat) : Paired (List.replicate n top) := by
  induction n with
  | zero => exact .nil
  | succ n ih => exact .narrow rfl ih

/-- Values always take slots of that form. -/
theorem paired_slotsOf (values : List SlotType) : Paired (slotsOf values) := by
  induction values with
  | nil => exact .nil
  | cons v values ih =>
    unfold slotsOf
    rw [List.flatMap_cons]
    by_cases hv : v.isWide = true
    · rw [if_pos hv]
      exact .wide hv ih
    · rw [if_neg hv]
      exact .narrow (Bool.eq_false_iff.2 hv) ih

/-- A slot with a type that takes one is a value. -/
theorem valuesOf_narrow {s : SlotType} (hs : s.isWide = false) (rest : List SlotType) :
    valuesOf (s :: rest) = s :: valuesOf rest := by
  cases rest with
  | nil => rfl
  | cons t rest =>
    rw [valuesOf, if_neg]
    rw [hs]
    exact Bool.false_ne_true

theorem valuesOf_wide {s : SlotType} (hs : s.isWide = true) (t : SlotType) (rest : List SlotType) :
    valuesOf (s :: t :: rest) = s :: valuesOf rest := by
  rw [valuesOf, if_pos hs]

/-- **Slots are those of the values in them**, if no wide type is torn apart. A wide type in front
of anything but its second half would be lost. -/
theorem slotsOf_valuesOf {slots : List SlotType} (h : Paired slots) :
    slotsOf (valuesOf slots) = slots := by
  induction h with
  | nil => rfl
  | @narrow s rest hs _ ih =>
    rw [valuesOf_narrow hs]
    unfold slotsOf at ih ⊢
    rw [List.flatMap_cons, ih, hs]
    rfl
  | @wide s rest hs _ ih =>
    rw [valuesOf_wide hs]
    unfold slotsOf at ih ⊢
    rw [List.flatMap_cons, ih, if_pos hs]
    rfl

theorem slotsOf_append (xs ys : List SlotType) :
    slotsOf (xs ++ ys) = slotsOf xs ++ slotsOf ys :=
  List.flatMap_append

/-- Unused values take a slot each. -/
theorem slotsOf_replicate_top (n : Nat) :
    slotsOf (List.replicate n top) = List.replicate n top := by
  induction n with
  | zero => rfl
  | succ n ih =>
    rw [List.replicate_succ]
    show [top] ++ slotsOf (List.replicate n top) = _
    rw [ih]
    rfl

/-- Only unused slots are trimmed, so they can be put back by their number. Their number follows
from the number of slots. -/
theorem exists_trimmed (values : List SlotType) :
    ∃ n, values = trimmed values ++ List.replicate n top := by
  refine ⟨(values.reverse.takeWhile (· = top)).length, ?_⟩
  have hunused : values.reverse.takeWhile (· = top)
      = List.replicate (values.reverse.takeWhile (· = top)).length top := by
    rw [List.eq_replicate_iff]
    refine ⟨rfl, fun v hv => ?_⟩
    have hunused := List.mem_takeWhile_imp hv
    exact of_decide_eq_true hunused
  calc values
      = (values.reverse.takeWhile (· = top) ++ values.reverse.dropWhile (· = top)).reverse := by
        rw [List.takeWhile_append_dropWhile, List.reverse_reverse]
    _ = trimmed values ++ (values.reverse.takeWhile (· = top)).reverse := List.reverse_append
    _ = trimmed values ++ List.replicate (values.reverse.takeWhile (· = top)).length top := by
        have hreverse := congrArg List.reverse hunused
        rw [List.reverse_replicate] at hreverse
        rw [hreverse]

end SlotType

namespace MachineState

/-- A state in which every wide type stands in front of an unused slot. -/
structure Paired (s : MachineState) : Prop where
  locals : SlotType.Paired s.locals
  stack : SlotType.Paired s.stack.reverse

/-- What values in local variables and on the stack make. There must be enough local variables for
them. -/
theorem ofValues_eq_ok {maxLocals : Nat} {locals stack : List SlotType} {s : MachineState}
    (h : ofValues maxLocals locals stack = .ok s) : s.Paired ∧ s.locals.length = maxLocals := by
  simp only [ofValues] at h
  split at h
  · next hle =>
    cases h
    refine ⟨⟨(SlotType.paired_slotsOf _).append (SlotType.Paired.replicate_top _), ?_⟩, ?_⟩
    · rw [List.reverse_reverse]
      exact SlotType.paired_slotsOf _
    · rw [List.length_append, List.length_replicate]
      omega
  · cases h

/-- **A state is made of the values in it.** The slots of trimmed local variables are filled up to
where they were. -/
theorem ofValues_values {s : MachineState} (h : s.Paired) :
    ofValues s.locals.length s.localValues s.stackValues = .ok s := by
  obtain ⟨n, hn⟩ := SlotType.exists_trimmed (SlotType.valuesOf s.locals)
  have hlocals : SlotType.slotsOf s.localValues ++ List.replicate n .top = s.locals := by
    have hslots := SlotType.slotsOf_valuesOf h.locals
    rw [hn, SlotType.slotsOf_append, SlotType.slotsOf_replicate_top] at hslots
    exact hslots
  have hlength : (SlotType.slotsOf s.localValues).length + n = s.locals.length := by
    rw [← hlocals, List.length_append, List.length_replicate]
  have hstack : (SlotType.slotsOf s.stackValues).reverse = s.stack := by
    unfold stackValues
    rw [SlotType.slotsOf_valuesOf h.stack, List.reverse_reverse]
  unfold ofValues
  rw [if_pos (by omega), show s.locals.length - (SlotType.slotsOf s.localValues).length = n by omega,
    hlocals, hstack]

end MachineState
end ClassLoom.Typing
