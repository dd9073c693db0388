import ClassLoom.ConstantPool
import ClassLoom.Descriptor.Parser
import ClassLoom.Instruction
import ClassLoom.Typing.MachineState

/-!
# What instructions do to types

`step` is the effect of one instruction on the types of local variables and of the operand
stack. Most instructions drop a fixed number of slots and push a value of a fixed type
(`Effect.of?`); the others look at what they find, or at the constant pool.

Types of operands are not checked, only that there are enough of them: bodies come from a
compiler, and it is only where control flows together that types have to fit.
-/

namespace ClassLoom.Typing

/-- The method that a body belongs to. -/
structure EnclosingMethod where
  /-- The internal name of the class. -/
  owner : String
  name : String
  descriptor : String
  isStatic : Bool
  deriving DecidableEq, Repr

/-! ## Fixed effects

Most opcodes drop and push the same slots wherever they stand. They come in families of four or more
that differ only in the type they work on, so their effects are read off the opcode's number, one
family after the other. -/

/-- Slots to drop, and what to push then. -/
structure Effect where
  drops : Nat
  pushes : Option SlotType := none
  deriving DecidableEq, Repr

namespace Effect

/-- The type that the arithmetic opcodes of the numeric families work on, four opcodes a row. -/
def arithmeticType (n : Nat) : SlotType :=
  match n % 4 with
  | 0 => .int
  | 1 => .long
  | 2 => .float
  | _ => .double

/-- The slots that a value of a type takes. -/
def widthOf (t : SlotType) : Nat := if t.isWide then 2 else 1

/-- A conversion between numeric types. -/
def conversion (source result : SlotType) : Effect :=
  { drops := widthOf source, pushes := result }

/-- The effect of constants. -/
def ofConstant? (op : Nat) : Option Effect :=
  if op = 0x00 then some { drops := 0 }
  else if op = 0x01 then some { drops := 0, pushes := some .null }
  else if op ≤ 0x08 then some { drops := 0, pushes := some .int }
  else if op ≤ 0x0a then some { drops := 0, pushes := some .long }
  else if op ≤ 0x0d then some { drops := 0, pushes := some .float }
  else if op ≤ 0x0f then some { drops := 0, pushes := some .double }
  else if op ≤ 0x11 then some { drops := 0, pushes := some .int }
  else none

/-- The effect of loads from and stores to arrays of primitives and of stores to any array. -/
def ofArrayAccess? (op : Nat) : Option Effect :=
  if op = 0x2e || (0x33 ≤ op && op ≤ 0x35) then some { drops := 2, pushes := some .int }
  else if op = 0x2f then some { drops := 2, pushes := some .long }
  else if op = 0x30 then some { drops := 2, pushes := some .float }
  else if op = 0x31 then some { drops := 2, pushes := some .double }
  else if op = 0x50 || op = 0x52 then some { drops := 4 }
  else if 0x4f ≤ op && op ≤ 0x56 then some { drops := 3 }
  else none

/-- The effect of arithmetic on two operands or one, of shifts and of bitwise operations. -/
def ofArithmetic? (op : Nat) : Option Effect :=
  if 0x60 ≤ op && op ≤ 0x73 then
    let t := arithmeticType (op - 0x60)
    some { drops := 2 * widthOf t, pushes := t }
  else if 0x74 ≤ op && op ≤ 0x77 then
    let t := arithmeticType (op - 0x74)
    some { drops := widthOf t, pushes := t }
  else if 0x78 ≤ op && op ≤ 0x7d then
    if op % 2 = 0 then some { drops := 2, pushes := some .int }
    else some { drops := 3, pushes := some .long }
  else if 0x7e ≤ op && op ≤ 0x83 then
    if op % 2 = 0 then some { drops := 2, pushes := some .int }
    else some { drops := 4, pushes := some .long }
  else none

/-- The effect of conversions between numeric types. -/
def ofConversion? (op : Nat) : Option Effect :=
  if op = 0x85 then some (conversion .int .long)
  else if op = 0x86 then some (conversion .int .float)
  else if op = 0x87 then some (conversion .int .double)
  else if op = 0x88 then some (conversion .long .int)
  else if op = 0x89 then some (conversion .long .float)
  else if op = 0x8a then some (conversion .long .double)
  else if op = 0x8b then some (conversion .float .int)
  else if op = 0x8c then some (conversion .float .long)
  else if op = 0x8d then some (conversion .float .double)
  else if op = 0x8e then some (conversion .double .int)
  else if op = 0x8f then some (conversion .double .long)
  else if op = 0x90 then some (conversion .double .float)
  else if 0x91 ≤ op && op ≤ 0x93 then some (conversion .int .int)
  else none

/-- The effect of comparisons, of jumps and of what is left. -/
def ofControl? (op : Nat) : Option Effect :=
  if op = 0x57 then some { drops := 1 }
  else if op = 0x58 then some { drops := 2 }
  else if op = 0x84 then some { drops := 0 }
  else if op = 0x94 || op = 0x97 || op = 0x98 then some { drops := 4, pushes := some .int }
  else if op = 0x95 || op = 0x96 then some { drops := 2, pushes := some .int }
  else if (0x99 ≤ op && op ≤ 0x9e) || op = 0xc6 || op = 0xc7 then some { drops := 1 }
  else if 0x9f ≤ op && op ≤ 0xa6 then some { drops := 2 }
  else if op = 0xa7 || op = 0xc8 then some { drops := 0 }
  else if op = 0xaa || op = 0xab then some { drops := 1 }
  else if op = 0xbe || op = 0xc1 then some { drops := 1, pushes := some .int }
  else if op = 0xbf || op = 0xc2 || op = 0xc3 then some { drops := 1 }
  else none

/-- The effect of an opcode that has the same one everywhere. -/
def of? (opcode : UInt8) : Option Effect :=
  let op := opcode.toNat
  ofConstant? op <|> ofArrayAccess? op <|> ofArithmetic? op <|> ofConversion? op <|> ofControl? op

/-- Drops and pushes. -/
def apply (effect : Effect) : Transition Unit := do
  MachineState.drop effect.drops
  if let some value := effect.pushes then MachineState.push value

end Effect

namespace Step

/-! ## Operands

What stands behind the opcode, and what it names in the constant pool. A body has been decoded
before it is checked, so operands are missing only where an instruction is made by hand. -/

/-- A byte behind the opcode. -/
def byteOperand (i : Instruction) (n : Nat) : Except ClassError UInt8 :=
  match i.byte? n with
  | some b => .ok b
  | none => .error .unexpectedEnd

/-- The 16-bit word behind the opcode. -/
def wordOperand (i : Instruction) : Except ClassError UInt16 :=
  match i.word? with
  | some w => .ok w
  | none => .error .unexpectedEnd

/-- The type of a pool entry that can be loaded. -/
def constantType (pool : ConstantPool) (index : UInt16) : Except ClassError SlotType := do
  match ← pool.get index with
  | .integer _ => return .int
  | .float _ => return .float
  | .long _ => return .long
  | .double _ => return .double
  | .string _ => return .reference "java/lang/String"
  | .classInfo _ => return .reference "java/lang/Class"
  | .methodType _ => return .reference "java/lang/invoke/MethodType"
  | .methodHandle _ _ => return .reference "java/lang/invoke/MethodHandle"
  | .dynamic _ member => do
    let (_, descriptor) ← pool.getNameAndType member
    return .ofField (← FieldType.parse descriptor)
  | _ => throw StackMap.malformed

/-! ## Local variables and array components

A load of a reference pushes what it finds in the slot, whatever that is: an object whose
constructor has not been called yet can be loaded like any other. -/

/-- The type of what a load pushes; `family` counts int, long, float, double, reference. What
a reference load pushes is what it finds. -/
def loadedType (family : Nat) (found : SlotType) : SlotType :=
  match family with
  | 0 => .int
  | 1 => .long
  | 2 => .float
  | 3 => .double
  | _ => found

/-- Pushes a local variable. -/
def load (family slot : Nat) : Transition Unit := do
  let found ← MachineState.load slot
  MachineState.push (loadedType family found)

/-- Pops a value into a local variable. -/
def store (slot : Nat) : Transition Unit := do
  MachineState.store slot (← MachineState.pop)

/-- Pushes the result of a call. -/
def pushResult : ReturnType → Transition Unit
  | .void => return
  | .value type => MachineState.push (.ofField type)

/-- The type of what is loaded from an array of references. -/
def componentType (array : SlotType) : Except ClassError SlotType :=
  match array with
  | .null => return .null
  | .reference name =>
    -- Something that is no array is not refused; what comes out of it is any object.
    match ArrayName.component? name with
    | some component => return .ofField (← FieldType.parse component)
    | none => return .reference objectName
  | _ => throw StackMap.malformed

/-! ## Members

What an access to a member drops and pushes is read off the member's descriptor. A constructor call
changes the type of its receiver wherever a copy of it lies. -/

/-- The class of an object whose constructor in `target` has been called. -/
def initializedClass (owner target : String) : SlotType → Except ClassError String
  | .uninitializedThis => return owner
  | .uninitialized _ => return target
  | _ => throw StackMap.malformed

/-- Reads, and for `store` writes, a field. -/
def fieldAccess (pool : ConstantPool) (opcode : UInt8) (index : UInt16) : Transition Unit := do
  let ref ← pool.getMember index
  if opcode = Opcode.getStatic then
    MachineState.push (.ofField (← FieldType.parse ref.descriptor))
  else if opcode = Opcode.putStatic then
    MachineState.drop (← FieldType.parse ref.descriptor).width
  else if opcode = Opcode.getField then
    MachineState.drop 1
    MachineState.push (.ofField (← FieldType.parse ref.descriptor))
  else
    MachineState.drop (← FieldType.parse ref.descriptor).width
    MachineState.drop 1

/-- Calls a method. -/
def call (pool : ConstantPool) (method : EnclosingMethod) (opcode : UInt8) (index : UInt16) :
    Transition Unit := do
  let target ← pool.getMember index
  let descriptor ← MethodDescriptor.parse target.descriptor
  -- Arguments lie above the receiver, which a static call does not have.
  MachineState.drop descriptor.paramSlots
  if opcode ≠ Opcode.invokeStatic then
    let receiver ← MachineState.pop
    if opcode = Opcode.invokeSpecial && target.name = constructorName then
      MachineState.construct receiver (← initializedClass method.owner target.owner receiver)
  pushResult descriptor.result

/-- Calls a call site that is linked at run time. -/
def dynamicCall (pool : ConstantPool) (index : UInt16) : Transition Unit := do
  match ← pool.get index with
  | .invokeDynamic _ member =>
    let (_, descriptor) ← pool.getNameAndType member
    let descriptor ← MethodDescriptor.parse descriptor
    MachineState.drop descriptor.paramSlots
    pushResult descriptor.result
  | _ => throw StackMap.malformed

/-! ## Arrays

The types of new arrays. Arrays of primitives are named by a number, all others by the class or the
array that their components are of. -/

/-- The descriptor of an array of primitives, by the number that stands for its components. -/
def primitiveArray (code : UInt8) : Except ClassError String :=
  match code.toNat with
  | 4 => return "[Z"
  | 5 => return "[C"
  | 6 => return "[F"
  | 7 => return "[D"
  | 8 => return "[B"
  | 9 => return "[S"
  | 10 => return "[I"
  | 11 => return "[J"
  | _ => throw StackMap.malformed

/-- The descriptor of an array with components of the given class or array. -/
def referenceArray (component : String) : String :=
  if ArrayName.isArray component then "[" ++ component else "[L" ++ component ++ ";"

/-- Makes an array with as many dimensions as slots are dropped. -/
def newMultiArray (pool : ConstantPool) (i : Instruction) : Transition Unit := do
  MachineState.drop (← byteOperand i 3).toNat
  MachineState.push (.reference (← pool.getClassName (← wordOperand i)))

/-! ## Effects that look at operands

The three groups of instructions whose effect depends on their operands, on what lies on the stack,
or on the pool. Each of them gives nothing for opcodes of the other groups. -/

/-- The effect of an instruction behind the wide prefix. -/
def wide (i : Instruction) : Transition Unit := do
  let inner ← byteOperand i 1
  let slot := (Bytes.toWord16 (← byteOperand i 2) (← byteOperand i 3)).toNat
  -- What is behind the prefix acts like the short form, on a slot of two bytes.
  if Opcode.isLoad inner then load (inner - Opcode.iload).toNat slot
  else if Opcode.isStore inner then store slot
  else if inner = Opcode.iinc then return
  else throw .subroutine

/-- The effect of instructions that copy or exchange stack slots. -/
def shuffle (op : UInt8) : Transition Unit :=
  match op.toNat with
  | 0x59 => MachineState.dup 1 0
  | 0x5a => MachineState.dup 1 1
  | 0x5b => MachineState.dup 1 2
  | 0x5c => MachineState.dup 2 0
  | 0x5d => MachineState.dup 2 1
  | 0x5e => MachineState.dup 2 2
  | _ => MachineState.swap

/-- The effect of constants from the pool and of accesses to local variables. -/
def slotAccess? (pool : ConstantPool) (i : Instruction) : Option (Transition Unit) :=
  let op := i.opcode
  if op = Opcode.ldc then some do
    MachineState.push (← constantType pool (← byteOperand i 1).toUInt16)
  else if op = Opcode.ldcWide || op = Opcode.ldcTwoSlots then some do
    MachineState.push (← constantType pool (← wordOperand i))
  else if Opcode.isLoad op then some do
    load (op - Opcode.iload).toNat (← byteOperand i 1).toNat
  else if Opcode.isShortLoad op then
    let n := (op - Opcode.iload0).toNat
    some (load (n / 4) (n % 4))
  else if Opcode.isStore op then some do
    store (← byteOperand i 1).toNat
  else if Opcode.isShortStore op then some (store ((op - Opcode.istore0).toNat % 4))
  else if op = Opcode.wide then some (wide i)
  else none

/-- The effect of accesses to fields, of calls and of returns. -/
def memberAccess? (pool : ConstantPool) (method : EnclosingMethod) (i : Instruction) :
    Option (Transition Unit) :=
  let op := i.opcode
  if Opcode.isReturn op then some MachineState.clear
  else if Opcode.getStatic ≤ op && op ≤ Opcode.putField then some do
    fieldAccess pool op (← wordOperand i)
  else if Opcode.invokeVirtual ≤ op && op ≤ Opcode.invokeInterface then some do
    call pool method op (← wordOperand i)
  else if op = Opcode.invokeDynamic then some do
    dynamicCall pool (← wordOperand i)
  else none

/-- The effect of instructions that make objects and arrays, read arrays of references or
change a reference's type. -/
def referenceUse? (pool : ConstantPool) (pc : Nat) (i : Instruction) : Option (Transition Unit) :=
  let op := i.opcode
  if op = Opcode.newObject then some (MachineState.push (.uninitialized pc))
  else if op = Opcode.aaload then some do
    MachineState.drop 1
    MachineState.push (← componentType (← MachineState.pop))
  else if op = Opcode.newArray then some do
    MachineState.drop 1
    MachineState.push (.reference (← primitiveArray (← byteOperand i 1)))
  else if op = Opcode.newReferenceArray then some do
    MachineState.drop 1
    MachineState.push (.reference (referenceArray (← pool.getClassName (← wordOperand i))))
  else if op = Opcode.checkCast then some do
    MachineState.drop 1
    MachineState.push (.reference (← pool.getClassName (← wordOperand i)))
  else if op = Opcode.newMultiArray then some (newMultiArray pool i)
  else none

end Step

/-! ## One instruction

Fixed effects come first, since they are the most common ones. An opcode in none of the groups is
refused, and so are subroutines, which frames cannot describe. -/

/-- The effect of the instruction at `pc`. -/
def step (pool : ConstantPool) (method : EnclosingMethod) (pc : Nat) (i : Instruction) :
    Transition Unit :=
  let op := i.opcode
  match Effect.of? op with
  | some effect => effect.apply
  | none =>
    if Opcode.dup ≤ op && op ≤ Opcode.swap then Step.shuffle op
    else if op = Opcode.jsr || op = Opcode.ret || op = Opcode.jsrWide then throw .subroutine
    else
      match Step.slotAccess? pool i <|> Step.memberAccess? pool method i
          <|> Step.referenceUse? pool pc i with
      | some transition => transition
      | none => throw (.badOpcode pc op)

end ClassLoom.Typing
