import ClassLoom.Instruction

/-!
# Writing instructions

The written form of an instruction at an offset, given the offsets of its targets.
-/

namespace ClassLoom

namespace Instruction

/-! ## Single instructions -/

/-- The distance from `pc` to `target` as a 32-bit word. -/
def distance (pc target : Nat) : Int32 := Int32.ofInt ((target : Int) - (pc : Int))

/-- The written form of a signed 32-bit word. -/
def int32Bytes (i : Int32) : Bytes := Bytes.word32 i.toUInt32

/-- Whether a distance fits a 16-bit offset. -/
def fitsShort (d : Int) : Bool := -32768 ≤ d && d ≤ 32767

/-- The written form of an instruction at `pc`. `place` gives the offset of a target in the
code that is being written; `wide` tells whether the instruction is a widened short branch. -/
def bytes (place : Nat → Except ClassError Nat) (pc : Nat) (wide : Bool) :
    Instruction → Except ClassError Bytes
  | plain bytes => return bytes
  | branch opcode target => do
    let d := distance pc (← place target)
    if Opcode.isWideBranch opcode then return opcode :: int32Bytes d
    else if wide then return Opcode.widened opcode :: int32Bytes d
    else if fitsShort d.toInt then
      return opcode :: Bytes.word16 d.toInt16.toUInt16
    else throw (.branchOverflow pc)
  | tableSwitch default low targets => do
    let d ← place default
    let ts ← targets.mapM place
    let high := low + Int32.ofNat targets.length - 1
    return Opcode.tableSwitch :: (List.replicate (padding pc) 0 ++ int32Bytes (distance pc d)
      ++ int32Bytes low ++ int32Bytes high
      ++ ts.flatMap fun t => int32Bytes (distance pc t))
  | lookupSwitch default cases => do
    let d ← place default
    let cs ← cases.mapM fun (key, target) => return (key, ← place target)
    return Opcode.lookupSwitch :: (List.replicate (padding pc) 0 ++ int32Bytes (distance pc d)
      ++ int32Bytes (Int32.ofNat cases.length)
      ++ cs.flatMap fun (key, t) => int32Bytes key ++ int32Bytes (distance pc t))

/-! ## Instructions in a row -/

/-- The written forms of instructions in a row from `pc` on, behind the written forms `done`,
last one first. Targets are offsets in the code that is being written. -/
def assembleOnto (done : List Bytes) (pc : Nat) : List Instruction → Except ClassError Bytes
  | [] => return done.reverse.flatten
  | i :: rest => do
    let bs ← i.bytes (fun target => return target) pc false
    assembleOnto (bs :: done) (pc + i.size pc false) rest

/-- The code that consists of the given instructions. Branches are written as they are and
never widened. -/
def assemble (instructions : List Instruction) : Except ClassError Bytes :=
  assembleOnto [] 0 instructions

end Instruction
end ClassLoom
