import ClassLoom.Instruction.Decode
import ClassLoom.Typing.Pass

/-!
# Re-typing bodies

A call that was redirected can give a value of another class than before, and that class need
not be assignable to what the frames behind it declare. `retype` widens the frames of a body,
from the ones it has on, until they accept every state that reaches them. A body whose frames
are consistent keeps them byte for byte.
-/

namespace ClassLoom.Typing

namespace EnclosingMethod

/-- The values in local variables when the method is entered. -/
def entryValues (method : EnclosingMethod) (descriptor : MethodDescriptor) : List SlotType :=
  let params := descriptor.params.map SlotType.ofField
  if method.isStatic then params
  else if method.name = constructorName && method.owner ≠ objectName then
    .uninitializedThis :: params
  else .reference method.owner :: params

end EnclosingMethod

/-- Widens the frames of a body. Gives the body with its new frames, or nothing if it needs
none; names of classes in new frames are interned. -/
def retype (hierarchy : Hierarchy) (method : EnclosingMethod) (code : Code) :
    Interning (Option Code) := do
  match Attribute.find? StackMap.tableName code.attributes with
  | none => return none
  | some frameTable =>
    let descriptor ← MethodDescriptor.parse method.descriptor
    let values := method.entryValues descriptor
    let maxLocals := code.maxLocals.toNat
    let frames ← StackMap.parse frameTable.info
    let pool ← get
    let declared ← FrameTable.declared pool maxLocals values frames
    let instructions ← Instruction.decode code.bytecode
    let start ← MachineState.ofValues maxLocals values []
    let pass := Pass.run { hierarchy, pool, method } code.handlers instructions start
    let settled ← Pass.settle pass declared
    if settled = declared then return none
    let info ← settled.bytes values
    return some { code with attributes := Attribute.set StackMap.tableName info code.attributes }

end ClassLoom.Typing
