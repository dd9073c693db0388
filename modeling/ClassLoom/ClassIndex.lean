import ClassLoom.ClassStub
import Std.Data.TreeMap

/-!
# Class indices

Class stubs by internal name. Of several classes of one name an index keeps the first.
-/

namespace ClassLoom

/-- Class stubs by internal name. -/
structure ClassIndex where
  stubs : Std.TreeMap String ClassStub := ∅

namespace ClassIndex

/-- The index of no class. -/
def empty : ClassIndex := {}

/-- The number of classes. -/
def size (index : ClassIndex) : Nat := index.stubs.size

/-- Whether there is no class. -/
def isEmpty (index : ClassIndex) : Bool := index.stubs.isEmpty

/-- The class of the given name. -/
def lookup (index : ClassIndex) (name : String) : Option ClassStub := index.stubs[name]?

/-- Adds a class unless there is one of its name. -/
def insert (index : ClassIndex) (stub : ClassStub) : ClassIndex :=
  { stubs := index.stubs.insertIfNew stub.name stub }

/-- A class that has been added is found under its name, unless one was there before. -/
theorem lookup_insert (index : ClassIndex) (stub : ClassStub) (name : String) :
    (index.insert stub).lookup name =
      if name = stub.name then some ((index.lookup name).getD stub) else index.lookup name := by
  simp only [lookup, insert, Std.TreeMap.getElem?_insertIfNew]
  by_cases same : name = stub.name
  · subst same
    by_cases present : stub.name ∈ index.stubs <;> simp [present]
  · simp [same, Ne.symm same]

/-- Adds classes in order. -/
def insertAll (index : ClassIndex) (stubs : List ClassStub) : ClassIndex :=
  stubs.foldl insert index

/-- The stubs of classes. Classes without one are left out. -/
def stubsOf (classes : List ClassFile) : List ClassStub :=
  classes.filterMap fun c => c.stub.toOption

/-- The index of classes. -/
def ofClasses (classes : List ClassFile) : ClassIndex := empty.insertAll (stubsOf classes)

/-- All stubs, in the order of their names. -/
def toList (index : ClassIndex) : List ClassStub := index.stubs.toList.map (·.2)

end ClassIndex
end ClassLoom
