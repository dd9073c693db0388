import ClassLoom.Binary
import ClassLoom.Descriptor

/-!
# Instructions

An instruction without code offsets among its operands is kept as it is written. Branches and
switches hold their targets as absolute offsets, so that a body can be laid out anew; what
they take up depends on where they stand (switches are padded) and on whether a short `goto`
or `jsr` has been widened.
-/

namespace ClassLoom

/-! ## Opcodes

The opcodes that are told apart by name, and the families that are ranges of them. -/

namespace Opcode

def bipush : UInt8 := 0x10
def ldc : UInt8 := 0x12
def ldcWide : UInt8 := 0x13
def ldcTwoSlots : UInt8 := 0x14
def iload : UInt8 := 0x15
def aload : UInt8 := 0x19
def iload0 : UInt8 := 0x1a
def aload0 : UInt8 := 0x2a
def aload3 : UInt8 := 0x2d
def aaload : UInt8 := 0x32
def istore : UInt8 := 0x36
def astore : UInt8 := 0x3a
def istore0 : UInt8 := 0x3b
def astore3 : UInt8 := 0x4e
def dup : UInt8 := 0x59
def swap : UInt8 := 0x5f
def iinc : UInt8 := 0x84
def ifeq : UInt8 := 0x99
def goto : UInt8 := 0xa7
def jsr : UInt8 := 0xa8
def ret : UInt8 := 0xa9
def tableSwitch : UInt8 := 0xaa
def lookupSwitch : UInt8 := 0xab
def ireturn : UInt8 := 0xac
def areturn : UInt8 := 0xb0
def vreturn : UInt8 := 0xb1
def getStatic : UInt8 := 0xb2
def putStatic : UInt8 := 0xb3
def getField : UInt8 := 0xb4
def putField : UInt8 := 0xb5
def invokeVirtual : UInt8 := 0xb6
def invokeSpecial : UInt8 := 0xb7
def invokeStatic : UInt8 := 0xb8
def invokeInterface : UInt8 := 0xb9
def invokeDynamic : UInt8 := 0xba
def newObject : UInt8 := 0xbb
def newArray : UInt8 := 0xbc
def newReferenceArray : UInt8 := 0xbd
def athrow : UInt8 := 0xbf
def checkCast : UInt8 := 0xc0
def wide : UInt8 := 0xc4
def newMultiArray : UInt8 := 0xc5
def ifNull : UInt8 := 0xc6
def ifNonNull : UInt8 := 0xc7
def gotoWide : UInt8 := 0xc8
def jsrWide : UInt8 := 0xc9

/-- Branches with a 16-bit offset. -/
def isShortBranch (op : UInt8) : Bool :=
  (ifeq ≤ op && op ≤ jsr) || op = ifNull || op = ifNonNull

/-- Branches with a 32-bit offset. -/
def isWideBranch (op : UInt8) : Bool := op = gotoWide || op = jsrWide

/-- Short branches that have a form with a 32-bit offset. -/
def isWidenable (op : UInt8) : Bool := op = goto || op = jsr

/-- The form with a 32-bit offset of `goto` and `jsr`. -/
def widened (op : UInt8) : UInt8 := if op = jsr then jsrWide else gotoWide

/-- Loads of a local variable, with the slot as operand. -/
def isLoad (op : UInt8) : Bool := iload ≤ op && op ≤ aload

/-- Stores to a local variable, with the slot as operand. -/
def isStore (op : UInt8) : Bool := istore ≤ op && op ≤ astore

/-- Loads of one of the first four local variables. -/
def isShortLoad (op : UInt8) : Bool := iload0 ≤ op && op ≤ aload3

/-- Stores to one of the first four local variables. -/
def isShortStore (op : UInt8) : Bool := istore0 ≤ op && op ≤ astore3

/-- Returns of every kind. -/
def isReturn (op : UInt8) : Bool := ireturn ≤ op && op ≤ vreturn

/-- Instructions after which control never goes on to the next one. -/
def endsBlock (op : UInt8) : Bool :=
  op = goto || op = gotoWide || op = tableSwitch || op = lookupSwitch || isReturn op || op = athrow

end Opcode

/-! ## Instructions in the clear

Only what holds code offsets is taken apart. All other instructions are their bytes, which can be
looked into. -/

/-- An instruction of a method body. -/
inductive Instruction where
  /-- Any instruction that is no branch and no switch, as written. -/
  | plain (bytes : Bytes)
  /-- A conditional or unconditional jump, or a subroutine call. -/
  | branch (opcode : UInt8) (target : Nat)
  /-- A jump by an index that counts from `low`. -/
  | tableSwitch (default : Nat) (low : Int32) (targets : List Nat)
  /-- A jump by key. -/
  | lookupSwitch (default : Nat) (cases : List (Int32 × Nat))
  deriving DecidableEq, Repr

namespace Instruction

/-- The opcode. -/
def opcode : Instruction → UInt8
  | plain bytes => bytes.headD 0
  | branch opcode _ => opcode
  | tableSwitch .. => Opcode.tableSwitch
  | lookupSwitch .. => Opcode.lookupSwitch

/-- The 16-bit word behind the opcode, if there is one: a pool index in instructions that
name a field, a method, a class or a constant. -/
def word? : Instruction → Option UInt16
  | plain (_ :: a :: b :: _) => some (Bytes.toWord16 a b)
  | _ => none

/-- Byte `n` of an instruction without code offsets; the opcode is byte 0. -/
def byte? (n : Nat) : Instruction → Option UInt8
  | plain bytes => bytes[n]?
  | _ => none

/-- Whether the instruction stores to a local variable, behind a wide prefix or not. -/
def isStore (i : Instruction) : Bool :=
  match i with
  | plain (op :: rest) =>
    Opcode.isStore op || Opcode.isShortStore op
      || (op = Opcode.wide && (rest.head?.map Opcode.isStore).getD false)
  | _ => false

/-- All offsets that control can go to instead of falling through. -/
def targets : Instruction → List Nat
  | plain _ => []
  | branch _ target => [target]
  | tableSwitch default _ targets => default :: targets
  | lookupSwitch default cases => default :: cases.map (·.2)

/-! ## Room

How many bytes an instruction takes up. Only switches depend on where they stand, and only `goto`
and `jsr` have two widths for one meaning. -/

/-- The zero bytes between the opcode of a switch at `pc` and its operands, which are aligned
to four bytes. -/
def padding (pc : Nat) : Nat := (4 - (pc + 1) % 4) % 4

/-- The bytes that the instruction takes up at `pc`; `wide` tells whether it is a widened
short branch. -/
def size (pc : Nat) (wide : Bool) : Instruction → Nat
  | plain bytes => bytes.length
  | branch opcode _ => if wide || Opcode.isWideBranch opcode then 5 else 3
  | tableSwitch _ _ targets => 13 + padding pc + 4 * targets.length
  | lookupSwitch _ cases => 9 + padding pc + 8 * cases.length

/-! ## Making instructions

The instructions that the weaver writes by itself, each in the shortest form there is. -/

/-- An instruction without operands. -/
def op (opcode : UInt8) : Instruction := plain [opcode]

/-- An instruction with one byte of operands. -/
def withByte (opcode operand : UInt8) : Instruction := plain [opcode, operand]

/-- An instruction with one 16-bit operand. -/
def withWord (opcode : UInt8) (operand : UInt16) : Instruction :=
  plain (opcode :: Bytes.word16 operand)

/-- A call through an interface; the receiver is among the slots of its arguments. -/
def invokeInterface (index : UInt16) (argSlots : UInt8) : Instruction :=
  plain (Opcode.invokeInterface :: (Bytes.word16 index ++ [argSlots, 0]))

/-- The position of a type among the five families of loads, stores and returns: int, long,
float, double, reference. -/
def family : FieldType → UInt8
  | .base .long => 1
  | .base .float => 2
  | .base .double => 3
  | .base _ => 0
  | _ => 4

/-- An access to a local variable in its shortest form: one of the four opcodes from `short`
on, `opcode` with a byte, or `opcode` with a 16-bit slot behind the wide prefix. -/
def localAccess (opcode short : UInt8) (slot : UInt16) : Instruction :=
  if slot.toNat < 4 then op (short + slot.toUInt8)
  else if slot.toNat < 256 then withByte opcode slot.toUInt8
  else plain (Opcode.wide :: opcode :: Bytes.word16 slot)

/-- Pushes a local variable of the given type. -/
def load (type : FieldType) (slot : UInt16) : Instruction :=
  localAccess (Opcode.iload + family type) (Opcode.iload0 + family type * 4) slot

/-- Pops a value of the given type into a local variable. -/
def store (type : FieldType) (slot : UInt16) : Instruction :=
  localAccess (Opcode.istore + family type) (Opcode.istore0 + family type * 4) slot

/-- Returns a value of the given type. -/
def returnOf : ReturnType → Instruction
  | .void => op Opcode.vreturn
  | .value type => op (Opcode.ireturn + family type)

end Instruction
end ClassLoom
