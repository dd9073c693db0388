import ClassLoom.Binary

/-!
# Modified UTF-8

The class file's encoding of texts. A text is taken as its UTF-16 code units; a unit below
0x80 other than NUL is one byte, NUL and the units below 0x800 are two, the others three. So
a supplementary character is written as its two surrogates, three bytes each, and no byte of
an encoding is zero.

Reading is more liberal than writing: a unit may be spelled longer than it has to be.
-/

namespace ClassLoom.ModifiedUtf8

/-! ## Writing -/

/-- The bytes of one UTF-16 code unit. -/
def encodeUnit (u : Nat) : Bytes :=
  if 0 < u ∧ u < 0x80 then [UInt8.ofNat u]
  else if u < 0x800 then [UInt8.ofNat (0xC0 + u / 64), UInt8.ofNat (0x80 + u % 64)]
  else [UInt8.ofNat (0xE0 + u / 4096), UInt8.ofNat (0x80 + u / 64 % 64),
    UInt8.ofNat (0x80 + u % 64)]

/-- The UTF-16 code units of a character. -/
def unitsOfChar (c : Char) : List Nat :=
  if c.toNat < 0x10000 then [c.toNat]
  else [0xD800 + (c.toNat - 0x10000) / 0x400, 0xDC00 + (c.toNat - 0x10000) % 0x400]

/-- The bytes of a character. -/
def encodeChar (c : Char) : Bytes := (unitsOfChar c).flatMap encodeUnit

/-- The bytes of a text. -/
def encode (text : String) : Bytes := text.toList.flatMap encodeChar

/-! ## Reading

Bytes are taken for code units first, and units for characters then. A byte that is zero, or starts
no unit, makes the whole text unreadable. -/

/-- The payload of a continuation byte `10xxxxxx`. -/
def tail? (b : UInt8) : Option Nat :=
  if b.toNat / 64 = 2 then some (b.toNat % 64) else none

/-- The code units spelled by `bs`, after the units `done`, last one first. -/
def unitsOnto (done : List Nat) : Bytes → Option (List Nat)
  | [] => some done.reverse
  | a :: rest =>
    if a = 0 then none
    else if a < 0x80 then unitsOnto (a.toNat :: done) rest
    else if a.toNat / 32 = 6 then
      match rest with
      | b :: rest =>
        match tail? b with
        | some x => unitsOnto ((a.toNat % 32 * 64 + x) :: done) rest
        | none => none
      | [] => none
    else if a.toNat / 16 = 14 then
      match rest with
      | b :: c :: rest =>
        match tail? b, tail? c with
        | some x, some y => unitsOnto ((a.toNat % 16 * 4096 + x * 64 + y) :: done) rest
        | _, _ => none
      | _ => none
    else none

/-- A unit that starts a surrogate pair. -/
def isHigh (u : Nat) : Bool := 0xD800 ≤ u && u < 0xDC00

/-- A unit that ends a surrogate pair. -/
def isLow (u : Nat) : Bool := 0xDC00 ≤ u && u < 0xE000

/-- The characters whose code units are `units`, after the characters `done`, last one first.
A surrogate outside a pair is no character. -/
def charsOnto (done : List Char) : List Nat → Option (List Char)
  | [] => some done.reverse
  | u :: rest =>
    if isHigh u then
      match rest with
      | v :: rest =>
        if isLow v then
          charsOnto (Char.ofNat (0x10000 + (u - 0xD800) * 0x400 + (v - 0xDC00)) :: done) rest
        else none
      | [] => none
    else if isLow u then none
    else charsOnto (Char.ofNat u :: done) rest

/-- The text spelled by `bs`. -/
def decode? (bs : Bytes) : Option String := do
  let units ← unitsOnto [] bs
  let chars ← charsOnto [] units
  return String.ofList chars

end ClassLoom.ModifiedUtf8
