import ClassLoom.Code

/-!
# Local variables

Debugging tables that name the local variables of a body: for a range of code, the name and
the type of what a slot holds. Tables of generic signatures have the same shape.
-/

namespace ClassLoom

/-- A variable that lives in `slot` from `start` on, for `length` bytes of code. -/
structure LocalVariable where
  start : UInt16
  length : UInt16
  name : String
  /-- The type, or the generic signature. -/
  descriptor : String
  slot : UInt16
  deriving DecidableEq, Repr

namespace LocalVariable

/-- The attribute that gives variables their types. -/
def tableName : String := "LocalVariableTable"

/-- The attribute that gives variables their generic signatures. -/
def typeTableName : String := "LocalVariableTypeTable"

/-- Reads a variable. -/
def read (pool : ConstantPool) : Reader LocalVariable := do
  let start ← Reader.word16
  let length ← Reader.word16
  let name ← pool.getUtf8 (← Reader.word16)
  let descriptor ← pool.getUtf8 (← Reader.word16)
  let slot ← Reader.word16
  return { start, length, name, descriptor, slot }

/-- The variables in a payload. -/
def parseTable (pool : ConstantPool) (info : Bytes) : Except ClassError (List LocalVariable) :=
  Reader.all (Reader.table (read pool)) info

/-- The written form of a variable. -/
def bytes (v : LocalVariable) : Interning Bytes := do
  let name ← ConstantPool.internUtf8 v.name
  let descriptor ← ConstantPool.internUtf8 v.descriptor
  return Bytes.word16 v.start ++ Bytes.word16 v.length ++ Bytes.word16 name
    ++ Bytes.word16 descriptor ++ Bytes.word16 v.slot

/-- The payload with the given variables. -/
def tableBytes (entries : List LocalVariable) : Interning Bytes := do
  let count ← Bytes.count16 entries.length
  let parts ← entries.mapM bytes
  return count ++ parts.flatten

end LocalVariable
end ClassLoom
