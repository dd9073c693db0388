import ClassLoom.Instruction
import Std.Data.TreeSet

/-!
# Reading instructions

`Instruction.decode` takes a whole code array apart. It accepts an array only if every branch
and switch in it goes to the start of an instruction.
-/

namespace ClassLoom

namespace Instruction

/-! ## Lengths

What an instruction takes up can be told from its opcode, with three exceptions: the two switches,
and the wide prefix, for which the opcode behind it counts. -/

/-- The length of the instructions whose form is fixed; nothing for switches, for the wide
prefix and for bytes that are no opcode. -/
def fixedLength? (op : UInt8) : Option Nat :=
  if op ≤ 0x0f then some 1
  else if op = 0x10 then some 2
  else if op = 0x11 then some 3
  else if op = 0x12 then some 2
  else if op ≤ 0x14 then some 3
  else if op ≤ 0x19 then some 2
  else if op ≤ 0x35 then some 1
  else if op ≤ 0x3a then some 2
  else if op ≤ 0x83 then some 1
  else if op = 0x84 then some 3
  else if op ≤ 0x98 then some 1
  else if op ≤ 0xa8 then some 3
  else if op = 0xa9 then some 2
  else if op ≤ 0xab then none
  else if op ≤ 0xb1 then some 1
  else if op ≤ 0xb8 then some 3
  else if op ≤ 0xba then some 5
  else if op = 0xbb then some 3
  else if op = 0xbc then some 2
  else if op = 0xbd then some 3
  else if op ≤ 0xbf then some 1
  else if op ≤ 0xc1 then some 3
  else if op ≤ 0xc3 then some 1
  else if op = 0xc4 then none
  else if op = 0xc5 then some 4
  else if op ≤ 0xc7 then some 3
  else if op ≤ 0xc9 then some 5
  else if op = 0xca then some 1
  else none

/-- The length of the instruction that the wide prefix and `inner` make up. -/
def wideLength? (inner : UInt8) : Option Nat :=
  if inner = Opcode.iinc then some 6
  else if Opcode.isLoad inner || Opcode.isStore inner || inner = Opcode.ret then some 4
  else none

/-! ## Operands

Distances count from the opcode of their instruction. A target outside of the code array is refused
at once, and one inside an instruction when all of them have been read. -/

/-- The offset at a distance from `pc`; it must lie inside a code array of `size` bytes. -/
def targetAt (size pc : Nat) (d : Int) : Except ClassError Nat :=
  let target := (pc : Int) + d
  if target < 0 || (size : Int) ≤ target then .error (.badCodeOffset target.toNat)
  else .ok target.toNat

/-- Reads a 32-bit distance from `pc`. -/
def readTarget (size pc : Nat) : Reader Nat := do
  let d ← Reader.word32
  targetAt size pc d.toInt32.toInt

/-- Reads the operands of a table switch at `pc`. -/
def readTableSwitch (size pc : Nat) : Reader Instruction := do
  let default ← readTarget size pc
  let low := (← Reader.word32).toInt32
  let high := (← Reader.word32).toInt32
  if high < low then throw (.malformed "tableswitch")
  let targets ← Reader.times (high.toInt - low.toInt + 1).toNat (readTarget size pc)
  return tableSwitch default low targets

/-- Reads a key and its target. -/
def readCase (size pc : Nat) : Reader (Int32 × Nat) := do
  let key := (← Reader.word32).toInt32
  let target ← readTarget size pc
  return (key, target)

/-- Reads the operands of a lookup switch at `pc`. -/
def readLookupSwitch (size pc : Nat) : Reader Instruction := do
  let default ← readTarget size pc
  let count := (← Reader.word32).toInt32
  if count < 0 then throw (.malformed "lookupswitch")
  let cases ← Reader.times count.toInt.toNat (readCase size pc)
  return lookupSwitch default cases

/-- The length of a plain instruction at `pc`, from its opcode and the bytes behind it. -/
def plainLength (pc : Nat) (op : UInt8) (rest : Bytes) : Except ClassError Nat :=
  if op = Opcode.wide then
    match rest with
    | [] => .error .unexpectedEnd
    | inner :: _ =>
      match wideLength? inner with
      | some n => .ok n
      | none => .error (.badOpcode pc op)
  else
    match fixedLength? op with
    | some n => .ok n
    | none => .error (.badOpcode pc op)

/-- Reads the instruction with the opcode `op` at `pc` in a code array of `size` bytes. -/
def read (size pc : Nat) (op : UInt8) : Reader Instruction := do
  if Opcode.isShortBranch op then
    let d ← Reader.word16
    return branch op (← targetAt size pc d.toInt16.toInt)
  else if Opcode.isWideBranch op then
    return branch op (← readTarget size pc)
  else if op = Opcode.tableSwitch then
    let _ ← Reader.bytes (padding pc)
    readTableSwitch size pc
  else if op = Opcode.lookupSwitch then
    let _ ← Reader.bytes (padding pc)
    readLookupSwitch size pc
  else
    let length ← plainLength pc op (← get)
    return plain (op :: (← Reader.bytes (length - 1)))

/-! ## Code arrays -/

/-- The instructions of the rest of a code array of `size` bytes, which starts at `pc`, behind
the instructions `done`, last one first. -/
def decodeOnto (size : Nat) (done : List (Nat × Instruction)) (pc : Nat) (bs : Bytes) :
    Except ClassError (List (Nat × Instruction)) :=
  match bs with
  | [] => .ok done.reverse
  | op :: rest =>
    match read size pc op rest with
    | .error e => .error e
    | .ok (i, _) =>
      -- The next instruction starts behind the size of this one, which is what it was read from.
      decodeOnto size ((pc, i) :: done) (pc + i.size pc false) (rest.drop (i.size pc false - 1))
termination_by bs.length
decreasing_by simp only [List.length_drop, List.length_cons]; omega

/-- Takes a code array apart into its instructions and their offsets. -/
def decode (code : Bytes) : Except ClassError (List (Nat × Instruction)) := do
  let instructions ← decodeOnto code.length [] 0 code
  let starts := Std.TreeSet.ofList (instructions.map (·.1))
  if instructions.all fun (_, i) => i.targets.all starts.contains then return instructions
  else throw (.malformed "Code")

end Instruction
end ClassLoom
