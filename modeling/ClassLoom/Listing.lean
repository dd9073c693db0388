import ClassLoom.Instruction.Encode
import Std.Data.TreeMap

/-!
# Assembly listings

A body on its way to being laid out: instructions in order, with labels between them that say
which offset of the old body each place stands for. Laying out gives every label its new
offset; relaxing widens the short `goto` and `jsr` instructions that cannot reach their
targets. Widening only ever makes a body longer, so relaxing comes to an end after at most one
more round than there are lines.
-/

namespace ClassLoom

/-! ## Lines -/

/-- A line of a listing. -/
inductive Line where
  /-- The place that the old offset `pc` stands for. -/
  | label (pc : Nat)
  /-- An instruction; `wide` tells whether it is a widened short branch. -/
  | code (instruction : Instruction) (wide : Bool)
  deriving DecidableEq, Repr

/-- The bytes that a line takes up at the offset `pos`. -/
def Line.size (pos : Nat) : Line → Nat
  | label _ => 0
  | code i wide => i.size pos wide

/-- Lines in order. -/
abbrev Listing := List Line

/-! ## Layouts

A label lies where the instruction behind it starts. Of two labels for one old offset the later one
would count; a patch makes one for each. -/

/-- Where the labels of a listing lie, and how long it is in all. -/
structure Layout where
  offsets : Std.TreeMap Nat Nat
  size : Nat

namespace Layout

/-- The new offset of the place that an old offset stands for. -/
def place (layout : Layout) (pc : Nat) : Except ClassError Nat :=
  match layout.offsets[pc]? with
  | some offset => .ok offset
  | none => .error (.badCodeOffset pc)

/-- Adds a line at the end. -/
def addLine (layout : Layout) (line : Line) : Layout :=
  match line with
  | .label pc => { layout with offsets := layout.offsets.insert pc layout.size }
  | .code i wide => { layout with size := layout.size + i.size layout.size wide }

end Layout

namespace Listing

/-- The layout of a listing. -/
def layout (listing : Listing) : Layout := listing.foldl Layout.addLine { offsets := ∅, size := 0 }

/-! ## Relaxing -/

/-- A line at the offset `pos`, widened if it is a short branch that cannot reach its target.
Only `goto` and `jsr` can be widened. -/
def widenLine (place : Nat → Except ClassError Nat) (pos : Nat) : Line → Except ClassError Line
  | .code (.branch op target) false => do
    if Opcode.isWideBranch op then return .code (.branch op target) false
    let offset ← place target
    if Instruction.fitsShort ((offset : Int) - (pos : Int)) then
      return .code (.branch op target) false
    else if Opcode.isWidenable op then return .code (.branch op target) true
    else throw (.branchOverflow pos)
  | line => return line

/-- Widens the lines from the offset `pos` on, behind the lines `done`, last one first. Every
line is judged by the layout from before this round. -/
def widenOnto (place : Nat → Except ClassError Nat) (done : Listing) (pos : Nat) :
    Listing → Except ClassError Listing
  | [] => return done.reverse
  | line :: rest => do
    let widened ← widenLine place pos line
    widenOnto place (widened :: done) (pos + line.size pos) rest

/-- One round of relaxing. -/
def widen (listing : Listing) : Except ClassError Listing :=
  widenOnto listing.layout.place [] 0 listing

/-- At most so many rounds of relaxing, up to one that changes nothing. -/
def relaxFor : Nat → Listing → Except ClassError Listing
  | 0, listing => return listing
  | rounds + 1, listing => do
    let widened ← widen listing
    if widened = listing then return listing else relaxFor rounds widened

/-- Widens short branches until every branch reaches its target. -/
def relax (listing : Listing) : Except ClassError Listing :=
  relaxFor (listing.length + 1) listing

/-! ## Written forms -/

/-- The written forms of the lines from the offset `pos` on, behind the written forms `done`,
last one first. -/
def bytesOnto (place : Nat → Except ClassError Nat) (done : List Bytes) (pos : Nat) :
    Listing → Except ClassError Bytes
  | [] => return done.reverse.flatten
  | .label _ :: rest => bytesOnto place done pos rest
  | .code i wide :: rest => do
    let bs ← i.bytes place pos wide
    bytesOnto place (bs :: done) (pos + i.size pos wide) rest

/-- The code of a listing that has been relaxed. -/
def bytes (listing : Listing) : Except ClassError Bytes := do
  let layout := listing.layout
  if layout.size > 65535 then throw (.codeTooLarge layout.size)
  bytesOnto layout.place [] 0 listing

end Listing
end ClassLoom
