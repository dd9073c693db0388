import ClassLoom.Binary

/-!
# Stack map tables

What a compiler declares about the local variables and the operand stack at the places where
control can arrive. A frame is written as a change against the one before it, at an offset
counted from it; frames of small offset changes have a one-byte form.

Reading keeps each frame's kind of change, so that frames are written back as they were except
for the choice between the short and the long form, which is always the short one where it
fits.
-/

namespace ClassLoom.StackMap

/-! ## Frames

Frames as they are written: what a frame declares follows from it and from the locals of the frame
before it, and is not worked out here. -/

/-- A type as a stack map frame declares it. -/
inductive Entry where
  | top
  | integer
  | float
  | double
  | long
  | null
  | uninitializedThis
  /-- A class, by pool index. -/
  | object (index : UInt16)
  /-- An object without a constructor call yet, by the offset of its `new`. -/
  | uninitialized (offset : Nat)
  deriving DecidableEq, Repr

/-- What a frame changes. -/
inductive Change where
  /-- The locals stay, the stack is empty. -/
  | same
  /-- The locals stay, the stack holds one value. -/
  | sameLocals (stack : Entry)
  /-- The last locals go, the stack is empty. -/
  | chop (count : Nat)
  /-- More locals come, the stack is empty. -/
  | append (locals : List Entry)
  /-- All locals and the whole stack. -/
  | full (locals stack : List Entry)
  deriving DecidableEq, Repr

/-- A frame at an offset of the code. -/
structure Frame where
  offset : Nat
  change : Change
  deriving DecidableEq, Repr

/-- The attribute that holds stack map frames. -/
def tableName : String := "StackMapTable"

/-- The failure of a table that breaks the format's rules. -/
def malformed : ClassError := .malformed tableName

namespace Entry

/-! ## Entries

The types in frames, each a tag and, for objects, where they come from. -/

/-- Reads an entry. -/
def read : Reader Entry := do
  let tag ← Reader.byte
  match tag.toNat with
  | 0 => return top
  | 1 => return integer
  | 2 => return float
  | 3 => return double
  | 4 => return long
  | 5 => return null
  | 6 => return uninitializedThis
  | 7 => return object (← Reader.word16)
  | 8 => return uninitialized (← Reader.word16).toNat
  | _ => throw malformed

/-- The written form of an entry. -/
def bytes : Entry → Except ClassError Bytes
  | top => return [0]
  | integer => return [1]
  | float => return [2]
  | double => return [3]
  | long => return [4]
  | null => return [5]
  | uninitializedThis => return [6]
  | object index => return 7 :: Bytes.word16 index
  | uninitialized offset =>
    if offset < 65536 then return 8 :: Bytes.word16 (UInt16.ofNat offset) else throw malformed

/-- The entry with its offset, if it has one, moved to its new place. -/
def move (place : Nat → Except ClassError Nat) : Entry → Except ClassError Entry
  | uninitialized offset => return uninitialized (← place offset)
  | entry => return entry

/-- The written forms of entries in a row. -/
def bytesOfAll (entries : List Entry) : Except ClassError Bytes :=
  return (← entries.mapM bytes).flatten

end Entry

namespace Frame

/-! ## Changes

The first byte tells the kind of change, and in the short forms the distance from the frame before,
too. -/

/-- Reads the offset change and the change of a frame whose first byte is `kind`. -/
def readChange (kind : Nat) : Reader (Nat × Change) := do
  if kind < 64 then return (kind, .same)
  else if kind < 128 then return (kind - 64, .sameLocals (← Entry.read))
  else if kind < 247 then throw malformed
  else
    let delta := (← Reader.word16).toNat
    if kind = 247 then return (delta, .sameLocals (← Entry.read))
    else if kind < 251 then return (delta, .chop (251 - kind))
    else if kind = 251 then return (delta, .same)
    else if kind < 255 then return (delta, .append (← Reader.times (kind - 251) Entry.read))
    else
      let locals ← Reader.table Entry.read
      let stack ← Reader.table Entry.read
      return (delta, .full locals stack)

/-- The offset that lies `delta` behind the frame before. -/
def offsetAfter (previous : Option Nat) (delta : Nat) : Nat :=
  match previous with
  | none => delta
  | some p => p + delta + 1

/-- How far an offset lies behind that of the frame before, which must come first. -/
def delta? (previous : Option Nat) (offset : Nat) : Option Nat :=
  match previous with
  | none => some offset
  | some p => if p < offset then some (offset - p - 1) else none

/-- The written form of a change at an offset change of `delta`. -/
def changeBytes (delta : UInt16) : Change → Except ClassError Bytes
  | .same =>
    -- The long form of a small distance is read, but never written.
    if delta.toNat < 64 then return [UInt8.ofNat delta.toNat]
    else return 251 :: Bytes.word16 delta
  | .sameLocals stack => do
    if delta.toNat < 64 then return UInt8.ofNat (64 + delta.toNat) :: (← stack.bytes)
    else return 247 :: (Bytes.word16 delta ++ (← stack.bytes))
  | .chop count => return UInt8.ofNat (251 - count) :: Bytes.word16 delta
  | .append locals => do
    let ls ← Entry.bytesOfAll locals
    return UInt8.ofNat (251 + locals.length) :: (Bytes.word16 delta ++ ls)
  | .full locals stack => do
    let localCount ← Bytes.count16 locals.length
    let ls ← Entry.bytesOfAll locals
    let stackCount ← Bytes.count16 stack.length
    let ss ← Entry.bytesOfAll stack
    return 255 :: (Bytes.word16 delta ++ localCount ++ ls ++ stackCount ++ ss)

/-- Moves the offsets in a change. -/
def moveChange (place : Nat → Except ClassError Nat) : Change → Except ClassError Change
  | .sameLocals stack => return .sameLocals (← stack.move place)
  | .append locals => return .append (← locals.mapM (Entry.move place))
  | .full locals stack => do
    let locals ← locals.mapM (Entry.move place)
    let stack ← stack.mapM (Entry.move place)
    return .full locals stack
  | change => return change

/-- Moves a frame and the offsets in it. -/
def move (place : Nat → Except ClassError Nat) (frame : Frame) : Except ClassError Frame := do
  let offset ← place frame.offset
  let change ← moveChange place frame.change
  return { offset, change }

end Frame

/-! ## Tables

Offsets count from the frame before, one less than the difference, except for the first frame. So no
two frames can have one offset. -/

/-- Reads so many frames behind the frames `done`, last one first. -/
def readOnto : Nat → List Frame → Bytes → Except ClassError (List Frame × Bytes)
  | 0, done, bs => .ok (done.reverse, bs)
  | n + 1, done, bs =>
    match (do Frame.readChange (← Reader.byte).toNat : Reader (Nat × Change)) bs with
    | .error e => .error e
    | .ok ((delta, change), rest) =>
      let offset := Frame.offsetAfter (done.head?.map (·.offset)) delta
      readOnto n ({ offset, change } :: done) rest

/-- The frames in a payload. -/
def parse (info : Bytes) : Except ClassError (List Frame) :=
  Reader.all (do readOnto (← Reader.word16).toNat []) info

/-- The written forms of frames behind a frame at `previous`, behind the written forms `done`,
last one first. -/
def bytesOnto (done : List Bytes) (previous : Option Nat) :
    List Frame → Except ClassError Bytes
  | [] => return done.reverse.flatten
  | frame :: rest =>
    match Frame.delta? previous frame.offset with
    | none => throw malformed
    | some delta => do
      if delta > 65535 then throw malformed
      let bs ← Frame.changeBytes (UInt16.ofNat delta) frame.change
      bytesOnto (bs :: done) (some frame.offset) rest

/-- The payload that holds the given frames. -/
def bytes (frames : List Frame) : Except ClassError Bytes := do
  let count ← Bytes.count16 frames.length
  return count ++ (← bytesOnto [] none frames)

/-- The payload with all offsets moved to their new places. -/
def move (place : Nat → Except ClassError Nat) (info : Bytes) : Except ClassError Bytes := do
  let frames ← parse info
  let moved ← frames.mapM (Frame.move place)
  bytes moved

end ClassLoom.StackMap
