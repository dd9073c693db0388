import ClassLoom.CodePatch
import ClassLoom.Weave.CallSite

/-!
# Instructions for call sites

The instructions that take the place of a call. Where an operand needs a cast, all operands
are stored into fresh local variables behind those of the method and loaded again, each with
its cast; arguments are stored last one first, since the last one is on top of the stack.
-/

namespace ClassLoom.CallSite

/-! ## Slots for operands -/

/-- The local variable slot `offset` behind `base`. -/
def slotAt (base : UInt16) (offset : Nat) : Except ClassError UInt16 :=
  if base.toNat + offset < 65536 then .ok (UInt16.ofNat (base.toNat + offset))
  else .error .localSlotOverflow

/-- Slots for values of the given types, from `offset` behind `base` on, and the offset behind
them. -/
def slotsFor (base : UInt16) (offset : Nat) :
    List FieldType → Except ClassError (List UInt16 × Nat)
  | [] => return ([], offset)
  | type :: rest => do
    let slot ← slotAt base offset
    let (slots, width) ← slotsFor base (offset + type.width) rest
    return (slot :: slots, width)

/-! ## Moving operands

The receiver lies below all arguments. It gets the first slot, although it is stored last. -/

/-- Casts the value on top of the stack. -/
def castTo (name : String) : Interning Instruction :=
  return .withWord Opcode.checkCast (← ConstantPool.internClass name)

/-- Any reference type; all have the same loads and stores. -/
def receiverType : FieldType := .object ""

/-- Moves the receiver out of the stack and back, with its cast. -/
def reloadReceiver (base : UInt16) (cast : String) : Interning (List Instruction) := do
  let slot ← slotAt base 0
  return [.store receiverType slot, .load receiverType slot, ← castTo cast]

/-- Loads an argument, with its cast. -/
def loadArg (arg : (FieldType × Option String) × UInt16) : Interning (List Instruction) := do
  let ((type, cast), slot) := arg
  match cast with
  | none => return [.load type slot]
  | some name => return [.load type slot, ← castTo name]

/-- Moves all operands out of the stack and back, with their casts. Gives the number of slots
that this takes, too. -/
def spill (site : CallSite) (base : UInt16) : Interning (List Instruction × Nat) := do
  if let some _ := site.receiverCast then
    let _ ← slotAt base 0
  let first := if site.receiverCast.isSome then 1 else 0
  let (slots, width) ← slotsFor base first (site.args.map (·.1))
  let args := site.args.zip slots
  let stores := args.reverse.map fun ((type, _), slot) => Instruction.store type slot
  let receiver ←
    match site.receiverCast with
    | none => pure []
    | some cast => reloadReceiver base cast
  let loads ← args.mapM loadArg
  return (stores ++ receiver ++ loads.flatten, width)

/-! ## The call itself -/

/-- The slots of an interface call's operands, which a byte must hold. -/
def operandSlots (call : Invocation) : Except ClassError UInt8 := do
  let d ← MethodDescriptor.parse call.descriptor
  if 1 + d.paramSlots < 256 then return UInt8.ofNat (1 + d.paramSlots)
  else throw (.badDescriptor call.descriptor)

/-- The instruction that makes a call. -/
def invoke (call : Invocation) : Interning Instruction := do
  let target ← ConstantPool.internMethod call.owner call.name call.descriptor call.ofInterface
  if call.opcode = Opcode.invokeInterface then
    return .invokeInterface target (← operandSlots call)
  else return .withWord call.opcode target

/-- The instructions that take the place of a call in a method with `base` local variable
slots, and the slots behind those that they take. -/
def emit (site : CallSite) (base : UInt16) : Interning (List Instruction × UInt16) := do
  let (moves, width) ← if site.needsSpill then spill site base else pure ([], 0)
  let call ← invoke site.call
  -- Slots are checked before they are counted in 16 bits.
  if width < 65536 then return (moves ++ [call], UInt16.ofNat width)
  else throw .localSlotOverflow

/-- Puts the instructions for a site into a patch, and the class to make into the `new` that
belongs to it. Keeps the greatest number of slots that a site takes. -/
def patchOne (base : UInt16) (state : CodePatch × UInt16) (site : CallSite) :
    Interning (CodePatch × UInt16) := do
  let (patch, width) := state
  let (instructions, slots) ← emit site base
  let patch := patch.replace site.pc instructions
  match site.newSite with
  | none => return (patch, max width slots)
  | some (pc, name) =>
    let make : Instruction := .withWord Opcode.newObject (← ConstantPool.internClass name)
    return (patch.replace pc [make], max width slots)

/-- The patch for all sites of a body, and the local variable slots that it needs. -/
def patchFor (base : UInt16) (sites : List CallSite) : Interning (CodePatch × UInt16) :=
  sites.foldlM (patchOne base) (.empty, 0)

end ClassLoom.CallSite
