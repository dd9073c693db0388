import ClassLoom.Access
import ClassLoom.Attribute

/-!
# Class files

A class or interface with its symbols in the clear: names and descriptors are texts, and are
interned only when the class is written. Attribute payloads are raw and keep their meaning,
because the pool they point into only grows.
-/

namespace ClassLoom

/-- A field or a method. -/
structure Member where
  access : UInt16
  name : String
  descriptor : String
  attributes : List Attribute := []
  deriving DecidableEq, Repr

namespace Member

/-- Whether the member belongs to the class and not to its instances. -/
def isStatic (m : Member) : Bool := Access.has m.access Access.staticFlag

/-- Whether the member has no body. -/
def isAbstract (m : Member) : Bool := Access.has m.access Access.abstractFlag

end Member

/-- The first of `members` with the given name and descriptor. -/
def Member.find? (name descriptor : String) (members : List Member) : Option Member :=
  members.find? fun m => m.name = name && m.descriptor = descriptor

/-- A class or interface. -/
structure ClassFile where
  minor : UInt16 := 0
  major : UInt16 := 50
  pool : ConstantPool := .empty
  access : UInt16
  /-- The internal name of the class. -/
  name : String
  superName : Option String
  interfaces : List String := []
  fields : List Member := []
  methods : List Member := []
  attributes : List Attribute := []

namespace ClassFile

/-- Whether the class is an interface. -/
def isInterface (c : ClassFile) : Bool := Access.has c.access Access.interfaceFlag

end ClassFile

namespace InternalName

/-- Splits a name at its last slash into package and simple name; nothing if it has none. -/
def split? (name : String) : Option (String × String) :=
  let reversed := name.toList.reverse
  match reversed.dropWhile (· ≠ '/') with
  | _ :: package =>
    some (String.ofList package.reverse, String.ofList (reversed.takeWhile (· ≠ '/')).reverse)
  | [] => none

/-- The part of a name after its last slash. -/
def simple (name : String) : String :=
  match split? name with
  | some (_, simple) => simple
  | none => name

end InternalName
end ClassLoom
