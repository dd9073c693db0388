import ClassLoom.Code
import ClassLoom.Typing.FrameTable
import ClassLoom.Typing.Step

/-!
# Passes over a body

A pass walks the instructions of a body in order, with the state that each leaves for the
next, and merges that state into every frame it flows into: the frame of the next instruction,
those of jump targets, and, with the locals alone, those of the exception handlers that
protect the instruction. Passes go on until one changes nothing; then every frame accepts
every state that reaches it.

A slot only ever moves on along a chain of superclasses that ends within `chainLimit` steps,
so the number of passes has a bound.
-/

namespace ClassLoom.Typing

/-! ## What a pass works on -/

/-- What the analysis of a body refers to. -/
structure Setting where
  hierarchy : Hierarchy
  pool : ConstantPool
  method : EnclosingMethod

/-- The analysis between two instructions. -/
structure Flow where
  table : FrameTable
  /-- The state that the instruction before leaves; nothing behind the end of a block. -/
  state : Option MachineState

namespace Pass

/-! ## One pass -/

/-- The offsets of the handlers that protect an instruction. -/
def handlersOf (handlers : List ExceptionHandler) (pc : Nat) : List Nat :=
  (handlers.filter fun h => h.start.toNat ≤ pc && pc < h.stop.toNat).map (·.target.toNat)

/-- Comes to an instruction. If it has a frame, the frame accepts the state that arrives, and
control goes on with what the frame says. -/
def arrive (hierarchy : Hierarchy) (pc : Nat) (flow : Flow) : Except ClassError Flow :=
  match flow.table.lookup pc, flow.state with
  | none, _ => return flow
  | some frame, none => return { flow with state := some frame }
  | some frame, some incoming => do
    -- Control goes on with the widened state, so that a pass sees what it has just changed.
    let merged ← frame.merge hierarchy incoming
    return { table := flow.table.set pc merged, state := some merged }

/-- Makes the handlers at the given offsets accept the locals of a state. -/
def protect (hierarchy : Hierarchy) (handlers : List Nat) (state : MachineState)
    (table : FrameTable) : Except ClassError FrameTable :=
  handlers.foldlM (fun table pc => table.mergeLocals hierarchy pc state) table

/-- Goes through one instruction. Instructions that control cannot reach are left out. -/
def visit (setting : Setting) (handlers : List ExceptionHandler) (flow : Flow)
    (entry : Nat × Instruction) : Except ClassError Flow := do
  let (pc, i) := entry
  let flow ← arrive setting.hierarchy pc flow
  match flow.state with
  | none => return flow
  | some state =>
    let protectors := handlersOf handlers pc
    let table ← protect setting.hierarchy protectors state flow.table
    let ((), next) ← step setting.pool setting.method pc i state
    -- A store changes locals while the handlers still protect it, so they accept both the locals
    -- in front of it and those behind. Constructor calls change locals as well, since they give
    -- what was made its type, but only what they find is merged.
    let table ← if i.isStore then protect setting.hierarchy protectors next table else pure table
    let table ← i.targets.foldlM (fun table t => table.merge setting.hierarchy t next) table
    return { table, state := if Opcode.endsBlock i.opcode then none else some next }

/-- One pass over a body that is entered with the state `start`. -/
def run (setting : Setting) (handlers : List ExceptionHandler)
    (instructions : List (Nat × Instruction)) (start : MachineState) (table : FrameTable) :
    Except ClassError FrameTable := do
  let flow ← instructions.foldlM (visit setting handlers) { table, state := some start }
  return flow.table

/-! ## Passes until nothing changes -/

/-- Applies `pass` up to a table that it does not change, at most so many times. -/
def settleFor (pass : FrameTable → Except ClassError FrameTable) :
    Nat → FrameTable → Except ClassError FrameTable
  | 0, table => return table
  | passes + 1, table => do
    let next ← pass table
    if next = table then return table else settleFor pass passes next

/-- Applies `pass` until it changes nothing. No slot changes more often than its chain of
superclasses is long, and each pass but the last changes a slot. -/
def settle (pass : FrameTable → Except ClassError FrameTable) (table : FrameTable) :
    Except ClassError FrameTable :=
  settleFor pass (2 * chainLimit * table.slotCount + 1) table

end Pass
end ClassLoom.Typing
