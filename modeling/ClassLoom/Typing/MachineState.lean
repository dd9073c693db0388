import ClassLoom.StackMap
import ClassLoom.Typing.Hierarchy

/-!
# States of the type checker

The types of all local variable slots and of all operand stack slots at one place of a body,
and the transitions that instructions are made of. The stack lists its top slot first, so the
second slot of a wide value stands in front of its type.

Every transition that asks for slots that are not there fails as a malformed table of frames.
-/

namespace ClassLoom.Typing

/-! ## States -/

/-- The types of slots at one place. -/
structure MachineState where
  locals : List SlotType
  /-- The operand stack, top slot first. -/
  stack : List SlotType
  deriving DecidableEq, Repr

/-- A change of the state that may fail. -/
abbrev Transition := StateT MachineState (Except ClassError)

namespace MachineState

/-! ## The stack

A wide value is two slots, and is pushed and popped as both. Dropping and copying count slots and do
not ask which of them belong together. -/

/-- Pushes a value. -/
def push (value : SlotType) : Transition Unit := fun s =>
  .ok ((), { s with stack := if value.isWide then .top :: value :: s.stack else value :: s.stack })

/-- Drops slots from the stack. -/
def drop (slots : Nat) : Transition Unit := fun s =>
  if slots ≤ s.stack.length then .ok ((), { s with stack := s.stack.drop slots })
  else .error StackMap.malformed

/-- Pops a value, both slots of it if it is wide. -/
def pop : Transition SlotType := fun s =>
  match s.stack with
  | [] => .error StackMap.malformed
  | .top :: value :: rest =>
    if value.isWide then .ok (value, { s with stack := rest })
    else .ok (.top, { s with stack := value :: rest })
  | value :: rest => .ok (value, { s with stack := rest })

/-- Empties the stack. -/
def clear : Transition Unit := fun s => .ok ((), { s with stack := [] })

/-- Copies the top `taken` slots to below the `under` slots that follow. -/
def dup (taken under : Nat) : Transition Unit := fun s =>
  let (moved, rest) := s.stack.splitAt (taken + under)
  if moved.length = taken + under then
    .ok ((), { s with stack := moved ++ (moved.take taken ++ rest) })
  else .error StackMap.malformed

/-- Exchanges the top two slots. -/
def swap : Transition Unit := fun s =>
  match s.stack with
  | a :: b :: rest => .ok ((), { s with stack := b :: a :: rest })
  | _ => .error StackMap.malformed

/-! ## Local variables -/

/-- The type of a local variable slot. -/
def load (slot : Nat) : Transition SlotType := fun s =>
  match s.locals[slot]? with
  | some value => .ok (value, s)
  | none => .error StackMap.malformed

/-- Local variable slots after a value was stored at `slot`. A wide value loses its first slot
when its second one is overwritten. -/
def storeAt (slot : Nat) (value : SlotType) (locals : List SlotType) : List SlotType :=
  let locals :=
    match slot with
    | 0 => locals
    | before + 1 =>
      if (locals[before]?.map SlotType.isWide).getD false then locals.set before .top else locals
  let locals := locals.set slot value
  if value.isWide then locals.set (slot + 1) .top else locals

/-- Stores a value in a local variable. -/
def store (slot : Nat) (value : SlotType) : Transition Unit := fun s =>
  if slot + (if value.isWide then 2 else 1) ≤ s.locals.length then
    .ok ((), { s with locals := storeAt slot value s.locals })
  else .error StackMap.malformed

/-- Makes every copy of an object whose constructor has been called a reference to `name`. -/
def construct (receiver : SlotType) (name : String) : Transition Unit := fun s =>
  let change (slot : SlotType) := if slot = receiver then .reference name else slot
  .ok ((), { locals := s.locals.map change, stack := s.stack.map change })

end MachineState
end ClassLoom.Typing
