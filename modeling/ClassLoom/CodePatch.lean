import ClassLoom.Code.LineNumber
import ClassLoom.Code.LocalVariable
import ClassLoom.Instruction.Decode
import ClassLoom.Listing
import ClassLoom.StackMap

/-!
# Patching method bodies

A patch holds edits at the offsets of existing instructions: instructions to put in front of
one, and instructions to put in the place of one. Applying it lays the body out anew and moves
everything that is keyed by an offset: branches, exception handlers, line numbers, ranges of
local variables and stack map frames.

Whatever pointed at an instruction points afterwards at what replaced it, and never at what
was put in front of it.
-/

namespace ClassLoom

/-! ## Edits

Edits are kept by offset, so their order does not matter, except for instructions that are put in
front of the same one. -/

/-- What happens at one instruction. -/
structure Edit where
  /-- Goes in front of the instruction. -/
  before : List Instruction := []
  /-- Takes the place of the instruction. -/
  replacement : Option (List Instruction) := none
  deriving Repr

/-- Edits by the offset of the instruction they are about. -/
structure CodePatch where
  edits : Std.TreeMap Nat Edit := ∅

namespace CodePatch

/-- The patch that changes nothing. -/
def empty : CodePatch := {}

/-- Whether there are no edits. -/
def isEmpty (patch : CodePatch) : Bool := patch.edits.isEmpty

/-- The edit at `pc`. -/
def editAt (patch : CodePatch) (pc : Nat) : Edit := patch.edits[pc]?.getD {}

/-- Puts instructions in the place of the one at `pc`. -/
def replace (patch : CodePatch) (pc : Nat) (instructions : List Instruction) : CodePatch :=
  { edits := patch.edits.insert pc { patch.editAt pc with replacement := some instructions } }

/-- Puts instructions in front of the one at `pc`, behind those that are there already. -/
def insertBefore (patch : CodePatch) (pc : Nat) (instructions : List Instruction) : CodePatch :=
  let edit := patch.editAt pc
  { edits := patch.edits.insert pc { edit with before := edit.before ++ instructions } }

/-! ## The new body as a listing

The label of an offset stands behind what was put in front of its instruction: whoever jumps there
comes to what replaced it. -/

/-- The lines for the instruction at `pc`. -/
def linesAt (patch : CodePatch) (pc : Nat) (i : Instruction) : Listing :=
  let edit := patch.editAt pc
  edit.before.map (Line.code · false) ++ .label pc ::
    (edit.replacement.getD [i]).map (Line.code · false)

/-- The patched body as a listing, with a label for the end of the old code. -/
def listing (patch : CodePatch) (size : Nat) (instructions : List (Nat × Instruction)) : Listing :=
  instructions.flatMap (fun (pc, i) => patch.linesAt pc i) ++ [.label size]

/-! ## Moving tables

Everything that is keyed by an offset goes through the same map from old offsets to new ones. An
offset that is neither an instruction's nor the end of the code has no place, and makes the patch
fail. -/

/-- An offset as a 16-bit word. -/
def offset16 (pc : Nat) : Except ClassError UInt16 :=
  if pc < 65536 then .ok (UInt16.ofNat pc) else .error (.codeTooLarge pc)

/-- The new place of a 16-bit offset. -/
def move16 (place : Nat → Except ClassError Nat) (pc : UInt16) : Except ClassError UInt16 := do
  offset16 (← place pc.toNat)

/-- Moves an exception handler. -/
def moveHandler (place : Nat → Except ClassError Nat) (h : ExceptionHandler) :
    Except ClassError ExceptionHandler := do
  let start ← move16 place h.start
  let stop ← move16 place h.stop
  let target ← move16 place h.target
  return { h with start, stop, target }

/-- Moves a table of line numbers. -/
def moveLines (place : Nat → Except ClassError Nat) (info : Bytes) : Except ClassError Bytes := do
  let entries ← LineNumber.parseTable info
  let moved ← entries.mapM fun e => return { e with start := ← move16 place e.start }
  LineNumber.tableBytes moved

/-- Moves the range of a local variable; its name, its type and its slot stay. -/
def moveRange (place : Nat → Except ClassError Nat) : Reader Bytes := do
  let start ← Reader.word16
  let length ← Reader.word16
  -- The end of a range moves as an offset of its own, so that the range covers what was put inside
  -- it.
  let newStart ← place start.toNat
  let newStop ← place (start.toNat + length.toNat)
  let start ← offset16 newStart
  let length ← offset16 (newStop - newStart)
  let rest ← Reader.bytes 6
  return Bytes.word16 start ++ Bytes.word16 length ++ rest

/-- Moves a table of local variables. -/
def moveRanges (place : Nat → Except ClassError Nat) (info : Bytes) : Except ClassError Bytes := do
  let ranges ← Reader.all (Reader.table (moveRange place)) info
  let count ← Bytes.count16 ranges.length
  return count ++ ranges.flatten

/-- Attributes that a patch drops, because their payloads hold offsets it does not know. -/
def isDropped (a : Attribute) : Bool :=
  a.name = "RuntimeVisibleTypeAnnotations" || a.name = "RuntimeInvisibleTypeAnnotations"

/-- Moves the offsets in an attribute of a body. -/
def moveAttribute (place : Nat → Except ClassError Nat) (a : Attribute) :
    Except ClassError Attribute := do
  if a.name = LineNumber.tableName then return { a with info := ← moveLines place a.info }
  else if a.name = LocalVariable.tableName || a.name = LocalVariable.typeTableName then
    return { a with info := ← moveRanges place a.info }
  else if a.name = StackMap.tableName then return { a with info := ← StackMap.move place a.info }
  else return a

/-! ## Applying -/

/-- The first edit, by offset, that is about no instruction. -/
def strayEdit? (patch : CodePatch) (instructions : List (Nat × Instruction)) : Option Nat :=
  let starts := Std.TreeSet.ofList (instructions.map (·.1))
  patch.edits.keys.find? fun pc => !starts.contains pc

/-- The patched body. The limits of its frame are those of the old body. -/
def apply (patch : CodePatch) (code : Code) : Except ClassError Code := do
  let instructions ← Instruction.decode code.bytecode
  if let some pc := patch.strayEdit? instructions then throw (.badCodeOffset pc)
  -- Relaxing comes first: where labels lie is known only when no branch has to be widened any more.
  let listing ← (patch.listing code.bytecode.length instructions).relax
  let place := listing.layout.place
  let bytecode ← listing.bytes
  let handlers ← code.handlers.mapM (moveHandler place)
  let kept := code.attributes.filter fun a => !isDropped a
  let attributes ← kept.mapM (moveAttribute place)
  return { code with bytecode, handlers, attributes }

end CodePatch
end ClassLoom
