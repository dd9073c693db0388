import ClassLoom.ClassFile
import ClassLoom.ConstantPool.Format

/-!
# The written form of a class file

`ClassFile.parse` reads a whole file, resolving the symbols as it goes; `ClassFile.bytes`
interns them again, in the order in which they are written. A class that was read and not
changed interns nothing new as long as its symbols were in their first slots.
-/

namespace ClassLoom

/-! ## Members -/

namespace Member

/-- Reads a member. -/
def read (pool : ConstantPool) : Reader Member := do
  let access ← Reader.word16
  let name ← pool.getUtf8 (← Reader.word16)
  let descriptor ← pool.getUtf8 (← Reader.word16)
  let attributes ← Attribute.readTable pool
  return { access, name, descriptor, attributes }

/-- The written form of a member. -/
def bytes (m : Member) : Interning Bytes := do
  let name ← ConstantPool.internUtf8 m.name
  let descriptor ← ConstantPool.internUtf8 m.descriptor
  let attributes ← Attribute.tableBytes m.attributes
  return Bytes.word16 m.access ++ Bytes.word16 name ++ Bytes.word16 descriptor ++ attributes

/-- The written form of a table of members. -/
def tableBytes (members : List Member) : Interning Bytes := do
  let count ← Bytes.count16 members.length
  let parts ← members.mapM bytes
  return count ++ parts.flatten

end Member

/-! ## Classes

The pool is written in front of everything that may still add to it, so the rest of the class is
written first and put behind. -/

namespace ClassFile

/-- The number every class file starts with. -/
def magic : UInt32 := 0xCAFEBABE

/-- Reads the index of a class and looks its name up. -/
def readClassName (pool : ConstantPool) : Reader String := do
  pool.getClassName (← Reader.word16)

/-- Reads the index of the superclass; zero stands for none. -/
def readSuperName (pool : ConstantPool) : Reader (Option String) := do
  let index ← Reader.word16
  if index = 0 then return none
  return some (← pool.getClassName index)

/-- Reads a class file, of which more bytes may follow. -/
def read : Reader ClassFile := do
  let found ← Reader.word32
  if found ≠ magic then throw (.badMagic found)
  let minor ← Reader.word16
  let major ← Reader.word16
  let pool ← ConstantPool.read
  let access ← Reader.word16
  let name ← readClassName pool
  let superName ← readSuperName pool
  let interfaces ← Reader.table (readClassName pool)
  let fields ← Reader.table (Member.read pool)
  let methods ← Reader.table (Member.read pool)
  let attributes ← Attribute.readTable pool
  return { minor, major, pool, access, name, superName, interfaces, fields, methods, attributes }

/-- Reads a class file that takes up all of `bs`. -/
def parse (bs : Bytes) : Except ClassError ClassFile := Reader.all read bs

/-- The index of the superclass, zero if there is none. -/
def superIndex : Option String → Interning UInt16
  | none => return 0
  | some name => ConstantPool.internClass name

/-- The written form of a table of interfaces. -/
def interfaceBytes (names : List String) : Interning Bytes := do
  let count ← Bytes.count16 names.length
  let indices ← names.mapM ConstantPool.internClass
  return count ++ indices.flatMap Bytes.word16

/-- The written form of everything behind the pool. -/
def bodyBytes (c : ClassFile) : Interning Bytes := do
  let name ← ConstantPool.internClass c.name
  let superName ← superIndex c.superName
  let interfaces ← interfaceBytes c.interfaces
  let fields ← Member.tableBytes c.fields
  let methods ← Member.tableBytes c.methods
  let attributes ← Attribute.tableBytes c.attributes
  return Bytes.word16 c.access ++ Bytes.word16 name ++ Bytes.word16 superName ++ interfaces
    ++ fields ++ methods ++ attributes

/-- The written form of a class file. -/
def bytes (c : ClassFile) : Except ClassError Bytes :=
  match c.bodyBytes c.pool with
  | .error e _ => .error e
  | .ok body pool => do
    let constants ← pool.bytes
    return Bytes.word32 magic ++ Bytes.word16 c.minor ++ Bytes.word16 c.major ++ constants ++ body

end ClassFile
end ClassLoom
