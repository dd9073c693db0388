import ClassLoom.Binary
import ClassLoom.ConstantPool
import ClassLoom.ModifiedUtf8

/-!
# The written form of a constant pool

A count of slots, slot 0 included, then every constant in order as a tag and its fields. A
wide constant counts for two slots and is written once.
-/

namespace ClassLoom

/-! ## Constants

A tag and fields of fixed width, except for texts, which have a length in front of them. -/

namespace Constant

/-- Reads a text of the constant pool. -/
def readText : Reader String := do
  let length ← Reader.word16
  let bs ← Reader.bytes length.toNat
  match ModifiedUtf8.decode? bs with
  | some text => return text
  | none => throw .badModifiedUtf8

/-- Reads two 16-bit fields. -/
def readPair (make : UInt16 → UInt16 → Constant) : Reader Constant := do
  let a ← Reader.word16
  let b ← Reader.word16
  return make a b

/-- Reads the fields of a constant with the given tag. -/
def readFields (tag : UInt8) : Reader Constant :=
  match tag.toNat with
  | 1 => return utf8 (← readText)
  | 3 => return integer (← Reader.word32).toInt32
  | 4 => return float (← Reader.word32)
  | 5 => return long (← Reader.word64).toInt64
  | 6 => return double (← Reader.word64)
  | 7 => return classInfo (← Reader.word16)
  | 8 => return string (← Reader.word16)
  | 9 => readPair field
  | 10 => readPair method
  | 11 => readPair interfaceMethod
  | 12 => readPair nameAndType
  | 15 => do
    let referenceKind ← Reader.byte
    let reference ← Reader.word16
    return methodHandle referenceKind reference
  | 16 => return methodType (← Reader.word16)
  | 17 => readPair dynamic
  | 18 => readPair invokeDynamic
  | 19 => return moduleInfo (← Reader.word16)
  | 20 => return packageInfo (← Reader.word16)
  | _ => throw (.badPoolTag tag)

/-- Reads a constant. -/
def read : Reader Constant := do readFields (← Reader.byte)

/-- The written form of a constant; an unusable slot has none. Only a text can be too long. -/
def bytes : Constant → Except ClassError Bytes
  | unusable => .ok []
  | utf8 text =>
    let bs := ModifiedUtf8.encode text
    if bs.length < 65536 then .ok (1 :: (Bytes.word16 (UInt16.ofNat bs.length) ++ bs))
    else .error .badModifiedUtf8
  | integer value => .ok (3 :: Bytes.word32 value.toUInt32)
  | float bits => .ok (4 :: Bytes.word32 bits)
  | long value => .ok (5 :: Bytes.word64 value.toUInt64)
  | double bits => .ok (6 :: Bytes.word64 bits)
  | classInfo name => .ok (7 :: Bytes.word16 name)
  | string text => .ok (8 :: Bytes.word16 text)
  | field owner member => .ok (9 :: (Bytes.word16 owner ++ Bytes.word16 member))
  | method owner member => .ok (10 :: (Bytes.word16 owner ++ Bytes.word16 member))
  | interfaceMethod owner member =>
    .ok (11 :: (Bytes.word16 owner ++ Bytes.word16 member))
  | nameAndType name descriptor => .ok (12 :: (Bytes.word16 name ++ Bytes.word16 descriptor))
  | methodHandle referenceKind reference => .ok (15 :: referenceKind :: Bytes.word16 reference)
  | methodType descriptor => .ok (16 :: Bytes.word16 descriptor)
  | dynamic bootstrap member =>
    .ok (17 :: (Bytes.word16 bootstrap ++ Bytes.word16 member))
  | invokeDynamic bootstrap member =>
    .ok (18 :: (Bytes.word16 bootstrap ++ Bytes.word16 member))
  | moduleInfo name => .ok (19 :: Bytes.word16 name)
  | packageInfo name => .ok (20 :: Bytes.word16 name)

end Constant

/-! ## Pools

A pool is read by adding one constant after the other, equal ones too, so that its index finds the
first of them. -/

namespace ConstantPool

/-- Reads constants into `pool` until `missing` more slots are filled. A wide constant must
not end behind the last of them. -/
def readSlots : Nat → ConstantPool → Bytes → Except ClassError (ConstantPool × Bytes)
  | 0, pool, bs => .ok (pool, bs)
  | missing + 1, pool, bs =>
    match Constant.read bs with
    | .error e => .error e
    | .ok (c, rest) =>
      match push c pool with
      | .error e _ => .error e
      | .ok _ pool =>
        if c.isWide then
          match missing with
          | 0 => .error (.malformed "constant_pool")
          | missing + 1 => readSlots missing pool rest
        else readSlots missing pool rest

/-- Reads a pool. -/
def read : Reader ConstantPool := do
  let count ← Reader.word16
  if count = 0 then throw (.malformed "constant_pool")
  readSlots (count.toNat - 1) empty

/-- The written form of a pool. -/
def bytes (pool : ConstantPool) : Except ClassError Bytes := do
  if pool.size < 65536 then
    let constants ← pool.slots.toList.mapM Constant.bytes
    return Bytes.word16 (UInt16.ofNat pool.size) ++ constants.flatten
  else throw .poolOverflow

end ConstantPool
end ClassLoom
