import ClassLoom.Binary
import ClassLoom.ConstantPool

/-!
# Attributes

Named byte payloads that hang off classes, members and method bodies. Names are symbols of
the constant pool; payloads stay as they are.
-/

namespace ClassLoom

/-- A named payload. -/
structure Attribute where
  name : String
  info : Bytes
  deriving DecidableEq, Repr

namespace Attribute

/-- Reads an attribute. Its name is looked up once the payload has been taken. -/
def read (pool : ConstantPool) : Reader Attribute := do
  let name ← Reader.word16
  let length ← Reader.word32
  let info ← Reader.bytes length.toNat
  let name ← pool.getUtf8 name
  return { name, info }

/-- Reads a table of attributes. -/
def readTable (pool : ConstantPool) : Reader (List Attribute) := Reader.table (read pool)

/-- The written form of an attribute. -/
def bytes (a : Attribute) : Interning Bytes := do
  let name ← ConstantPool.internUtf8 a.name
  if a.info.length < 4294967296 then
    return Bytes.word16 name ++ Bytes.word32 (UInt32.ofNat a.info.length) ++ a.info
  else throw (.malformed "attribute length")

/-- The written form of a table of attributes. -/
def tableBytes (attributes : List Attribute) : Interning Bytes := do
  let count ← Bytes.count16 attributes.length
  let parts ← attributes.mapM bytes
  return count ++ parts.flatten

/-- The first attribute of the given name. -/
def find? (name : String) (attributes : List Attribute) : Option Attribute :=
  attributes.find? (·.name = name)

/-- Gives the first attribute of the given name the payload `info`, or appends one that has
it if there is none. -/
def set (name : String) (info : Bytes) : List Attribute → List Attribute
  | [] => [{ name, info }]
  | a :: rest =>
    if a.name = name then { a with info } :: rest else a :: set name info rest

/-- The payload that has been set is the one that is found. -/
theorem find?_set (name : String) (info : Bytes) (attributes : List Attribute) :
    find? name (set name info attributes) = some { name, info } := by
  induction attributes with
  | nil => simp [set, find?]
  | cons a rest ih =>
    by_cases h : a.name = name
    · simp [set, find?, h]
    · simpa [set, find?, h] using ih

end Attribute
end ClassLoom
