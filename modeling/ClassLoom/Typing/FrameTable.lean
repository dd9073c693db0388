import ClassLoom.ConstantPool
import ClassLoom.Typing.MachineState

/-!
# Tables of frames

The states that a body declares at the offsets where control can arrive, taken from the
entries of its stack map table (`FrameTable.declared`) and written back as such
(`FrameTable.bytes`). Each frame is written in the shortest way that says the change against
the one before it.

`FrameTable.merge` widens a frame so that it accepts one more state.
-/

namespace ClassLoom.Typing

/-- The declared states with their offsets, in the order of offsets. -/
abbrev FrameTable := List (Nat × MachineState)

/-! ## Types in frames

Frames name classes by pool index, so going from types to entries may add to the pool. -/

namespace SlotType

/-- The type that a stack map entry stands for. -/
def ofEntry (pool : ConstantPool) : StackMap.Entry → Except ClassError SlotType
  | .top => return top
  | .integer => return int
  | .float => return float
  | .long => return long
  | .double => return double
  | .null => return null
  | .uninitializedThis => return uninitializedThis
  | .object index => return reference (← pool.getClassName index)
  | .uninitialized offset => return uninitialized offset

/-- The stack map entry that stands for a type. -/
def entry : SlotType → Interning StackMap.Entry
  | top => return .top
  | int => return .integer
  | float => return .float
  | long => return .long
  | double => return .double
  | null => return .null
  | uninitializedThis => return .uninitializedThis
  | reference name => return .object (← ConstantPool.internClass name)
  | uninitialized offset => return .uninitialized offset

end SlotType

namespace MachineState

/-! ## States of frames

A frame lists one type a value and leaves unused variables at the end out; a state has a type for
every slot. -/

/-- The state with the given values in local variables and on the stack, bottom first. The
local variables that are left are unused. -/
def ofValues (maxLocals : Nat) (locals stack : List SlotType) : Except ClassError MachineState :=
  let slots := SlotType.slotsOf locals
  if slots.length ≤ maxLocals then
    .ok { locals := slots ++ List.replicate (maxLocals - slots.length) .top,
          stack := (SlotType.slotsOf stack).reverse }
  else .error StackMap.malformed

/-- The values in local variables, up to the last one in use. -/
def localValues (s : MachineState) : List SlotType :=
  SlotType.trimmed (SlotType.valuesOf s.locals)

/-- The values on the stack, bottom first. -/
def stackValues (s : MachineState) : List SlotType := SlotType.valuesOf s.stack.reverse

/-! ## Merging

A frame is widened slot by slot. Local variables may become unusable, stack slots may not, since
something is going to use them. -/

/-- Slots that take one list of values besides another; there must be as many of both. -/
def mergeLocals (h : Hierarchy) (slots values : List SlotType) :
    Except ClassError (List SlotType) :=
  if slots.length = values.length then .ok (List.zipWith (SlotType.widen h) slots values)
  else .error StackMap.malformed

/-- A stack slot that takes one more value. Stack slots must stay usable. -/
def mergeStackSlot (h : Hierarchy) (slot value : SlotType) : Except ClassError SlotType :=
  let widened := SlotType.widen h slot value
  if widened = .top && slot ≠ .top then .error StackMap.malformed else .ok widened

/-- Stack slots that take one list of values besides another. -/
def mergeStack (h : Hierarchy) : List SlotType → List SlotType →
    Except ClassError (List SlotType)
  | [], [] => .ok []
  | slot :: slots, value :: values => do
    let widened ← mergeStackSlot h slot value
    return widened :: (← mergeStack h slots values)
  | _, _ => .error StackMap.malformed

/-- The frame that accepts the state `incoming` besides all that `frame` accepts. -/
def merge (h : Hierarchy) (frame incoming : MachineState) : Except ClassError MachineState := do
  let locals ← mergeLocals h frame.locals incoming.locals
  let stack ← mergeStack h frame.stack incoming.stack
  return { locals, stack }

end MachineState

namespace FrameTable

/-! ## Declared states

The states of a table are worked out in order, since each frame changes the locals of the one before
it. -/

/-- The locals and the stack, one type a value, that a change leads to from `locals`. -/
def change (pool : ConstantPool) (locals : List SlotType) :
    StackMap.Change → Except ClassError (List SlotType × List SlotType)
  | .same => return (locals, [])
  | .sameLocals stack => return (locals, [← SlotType.ofEntry pool stack])
  | .chop count =>
    if count ≤ locals.length then return (locals.take (locals.length - count), [])
    else throw StackMap.malformed
  | .append more => return (locals ++ (← more.mapM (SlotType.ofEntry pool)), [])
  | .full locals stack => do
    let locals ← locals.mapM (SlotType.ofEntry pool)
    let stack ← stack.mapM (SlotType.ofEntry pool)
    return (locals, stack)

/-- The states that frames declare, where `locals` are the values before the first one. -/
def declared (pool : ConstantPool) (maxLocals : Nat) (locals : List SlotType) :
    List StackMap.Frame → Except ClassError FrameTable
  | [] => return []
  | frame :: rest => do
    let (locals, stack) ← change pool locals frame.change
    let state ← MachineState.ofValues maxLocals locals stack
    return (frame.offset, state) :: (← declared pool maxLocals locals rest)

/-- Gives the frame at an offset another state. -/
def set (table : FrameTable) (pc : Nat) (state : MachineState) : FrameTable :=
  table.map fun (p, s) => if p = pc then (p, state) else (p, s)

/-- The frame that has been set is found at its offset, and all others are as before. -/
theorem lookup_set (table : FrameTable) (pc other : Nat) (state : MachineState) :
    (table.set pc state).lookup other =
      if other = pc then (table.lookup other).map fun _ => state else table.lookup other := by
  induction table with
  | nil => simp [set]
  | cons frame rest ih =>
    obtain ⟨offset, declared⟩ := frame
    have step : set ((offset, declared) :: rest) pc state =
        (if offset = pc then (offset, state) else (offset, declared)) :: set rest pc state := rfl
    rw [step]
    by_cases found : other = offset
    · subst found
      by_cases here : other = pc <;> simp [here]
    · have missed : (other == offset) = false := beq_false_of_ne found
      by_cases here : offset = pc
      · subst here
        simp [List.lookup_cons, missed, ih]
      · simp [here, List.lookup_cons, missed, ih]

/-- Replaces the frame at an offset, which must have one. -/
def modify (table : FrameTable) (pc : Nat)
    (f : MachineState → Except ClassError MachineState) : Except ClassError FrameTable :=
  match table.lookup pc with
  | some state => return table.set pc (← f state)
  | none => throw StackMap.malformed

/-- Makes the frame at an offset accept a state. -/
def merge (h : Hierarchy) (pc : Nat) (incoming : MachineState) (table : FrameTable) :
    Except ClassError FrameTable :=
  table.modify pc fun frame => frame.merge h incoming

/-- Makes the locals of the frame at an offset accept those of a state. -/
def mergeLocals (h : Hierarchy) (pc : Nat) (incoming : MachineState) (table : FrameTable) :
    Except ClassError FrameTable :=
  table.modify pc fun frame => do
    return { frame with locals := ← MachineState.mergeLocals h frame.locals incoming.locals }

/-- The number of slots in all frames together. -/
def slotCount (table : FrameTable) : Nat :=
  table.foldr (fun (_, s) slots => s.locals.length + s.stack.length + slots) 0

/-! ## Writing tables

Of all changes that lead from one frame to the next the shortest is written. The pool gets the
classes of a frame in the order in which they stand in it. -/

/-- The shortest change from the locals `previous` to the given locals and stack. -/
def changeTo (previous locals stack : List SlotType) : Interning StackMap.Change := do
  match stack, decide (locals = previous) with
  | [], true => return .same
  | [value], true => return .sameLocals (← value.entry)
  | [], false =>
    if locals.length < previous.length && previous.length - locals.length ≤ 3
        && locals.isPrefixOf previous then
      return .chop (previous.length - locals.length)
    else if previous.length < locals.length && locals.length - previous.length ≤ 3
        && previous.isPrefixOf locals then
      return .append (← (locals.drop previous.length).mapM SlotType.entry)
    else return .full (← locals.mapM SlotType.entry) []
  | _, _ =>
    let locals ← locals.mapM SlotType.entry
    let stack ← stack.mapM SlotType.entry
    return .full locals stack

/-- The frames that declare the states of a table, where `previous` are the values in local
variables before the first one. -/
def frames (previous : List SlotType) : FrameTable → Interning (List StackMap.Frame)
  | [] => return []
  | (offset, state) :: rest => do
    let locals := state.localValues
    let change ← changeTo previous locals state.stackValues
    return { offset, change } :: (← frames locals rest)

/-- The payload that declares the states of a table. -/
def bytes (previous : List SlotType) (table : FrameTable) : Interning Bytes := do
  let frames ← frames previous table
  StackMap.bytes frames

end FrameTable
end ClassLoom.Typing
