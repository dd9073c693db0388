import ClassLoom.Error
import Std.Data.TreeMap

/-!
# Constants

The entries of a constant pool. Floating point constants are kept as bit patterns, so that a
pool is written back bit for bit and equal entries are equal constants.

Constants are ordered by their text, then by a number that holds all the rest of them; the
order serves as the key order of the pool's index.
-/

namespace ClassLoom

/-! ## Slots -/

/-- One slot of a constant pool. -/
inductive Constant where
  /-- Slot 0, and the second slot of a `long` or `double`. -/
  | unusable
  | utf8 (text : String)
  | integer (value : Int32)
  | float (bits : UInt32)
  | long (value : Int64)
  | double (bits : UInt64)
  | classInfo (name : UInt16)
  | string (text : UInt16)
  | field (owner member : UInt16)
  | method (owner member : UInt16)
  | interfaceMethod (owner member : UInt16)
  | nameAndType (name descriptor : UInt16)
  | methodHandle (referenceKind : UInt8) (reference : UInt16)
  | methodType (descriptor : UInt16)
  | dynamic (bootstrap member : UInt16)
  | invokeDynamic (bootstrap member : UInt16)
  | moduleInfo (name : UInt16)
  | packageInfo (name : UInt16)
  deriving DecidableEq, Repr

namespace Constant

/-- The kind of a constant. -/
def kind : Constant → ConstantKind
  | unusable => .unusable
  | utf8 _ => .utf8
  | integer _ => .integer
  | float _ => .float
  | long _ => .long
  | double _ => .double
  | classInfo _ => .classInfo
  | string _ => .string
  | field _ _ => .field
  | method _ _ => .method
  | interfaceMethod _ _ => .interfaceMethod
  | nameAndType _ _ => .nameAndType
  | methodHandle _ _ => .methodHandle
  | methodType _ => .methodType
  | dynamic _ _ => .dynamic
  | invokeDynamic _ _ => .invokeDynamic
  | moduleInfo _ => .moduleInfo
  | packageInfo _ => .packageInfo

/-- Whether a constant takes two slots. -/
def isWide : Constant → Bool
  | long _ => true
  | double _ => true
  | _ => false

/-- The number of slots a constant takes. -/
def width (c : Constant) : Nat := if c.isWide then 2 else 1

/-! ## The key order

Constants are compared by text first, and all that have none by a single number. Two constants have
the same text and the same number only if they are equal. -/

/-- The text of a `utf8` constant; nothing for the others. -/
def keyText : Constant → String
  | utf8 text => text
  | _ => ""

/-- Two 16-bit fields as one number. -/
def pair (a b : UInt16) : Nat := a.toNat * 65536 + b.toNat

/-- A number for the kind of a constant and all its fields that are not text. -/
def keyNumber : Constant → Nat
  | unusable => 0
  | utf8 _ => 1
  | integer value => 3 + 32 * value.toUInt32.toNat
  | float bits => 4 + 32 * bits.toNat
  | long value => 5 + 32 * value.toUInt64.toNat
  | double bits => 6 + 32 * bits.toNat
  | classInfo name => 7 + 32 * name.toNat
  | string text => 8 + 32 * text.toNat
  | field owner member => 9 + 32 * pair owner member
  | method owner member => 10 + 32 * pair owner member
  | interfaceMethod owner member => 11 + 32 * pair owner member
  | nameAndType name descriptor => 12 + 32 * pair name descriptor
  | methodHandle referenceKind reference =>
    15 + 32 * (referenceKind.toNat * 65536 + reference.toNat)
  | methodType descriptor => 16 + 32 * descriptor.toNat
  | dynamic bootstrap member => 17 + 32 * pair bootstrap member
  | invokeDynamic bootstrap member => 18 + 32 * pair bootstrap member
  | moduleInfo name => 19 + 32 * name.toNat
  | packageInfo name => 20 + 32 * name.toNat

/-- The key order: by text, then by number. -/
instance : Ord Constant where
  compare := compareLex (compareOn keyText) (compareOn keyNumber)

end Constant
end ClassLoom
