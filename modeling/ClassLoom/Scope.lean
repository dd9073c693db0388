import ClassLoom.ClassIndex
import ClassLoom.Typing.Hierarchy

/-!
# Scopes

All classes that the weaver can see: those that are being woven, and those of the classpath
where none of the former has their name. A scope is a snapshot; weaving a class does not
change what other classes see.

Inheritance may be cyclic and may lead to classes that cannot be seen. `Scope.superclasses`
is the chain of superclasses up to there; `Scope.interfaceClosure` lists what interfaces a
class has in all, nearest first.
-/

namespace ClassLoom

/-! ## Visible classes -/

/-- The classes that can be seen. -/
structure Scope where
  /-- The classes that are being woven. -/
  batch : ClassIndex
  classpath : ClassIndex

namespace Scope

/-- The scope of a batch on a classpath. -/
def ofBatch (classes : List ClassFile) (classpath : ClassIndex) : Scope :=
  { batch := .ofClasses classes, classpath }

/-- The class of the given name. -/
def lookup (scope : Scope) (name : String) : Option ClassStub :=
  scope.batch.lookup name <|> scope.classpath.lookup name

/-- No more classes than this can be seen. -/
def size (scope : Scope) : Nat := scope.batch.size + scope.classpath.size

/-! ## Superclasses

A chain cannot be longer than there are classes, unless one of them comes twice. So the bound on its
length is never what ends it. -/

/-- The chain of superclasses from the class `name` on, at most so long, up to a class that
cannot be seen or is among those `seen`. -/
def chainFrom (scope : Scope) : Nat → List String → String → List ClassStub
  | 0, _, _ => []
  | fuel + 1, seen, name =>
    match scope.lookup name with
    | none => []
    | some stub =>
      if seen.contains stub.name then []
      else
        stub :: match stub.superName with
          | none => []
          | some parent => chainFrom scope fuel (stub.name :: seen) parent

/-- The class and its superclasses, nearest first, up to one that cannot be seen. -/
def superclasses (scope : Scope) (name : String) : List ClassStub :=
  scope.chainFrom (scope.size + 1) [] name

/-- The class that has a method, and the method: the class `name` or a superclass. -/
def findMethod (scope : Scope) (name method descriptor : String) :
    Option (ClassStub × MethodStub) :=
  (scope.superclasses name).findSome? fun stub =>
    (stub.method? method descriptor).map fun m => (stub, m)

/-! ## Interfaces

Interfaces are collected level by level, which is what makes nearer ones come before farther
ones. -/

/-- The direct interfaces of a class that can be seen. -/
def interfacesOf (scope : Scope) (name : String) : List String :=
  match scope.lookup name with
  | some stub => stub.interfaces
  | none => []

/-- The interfaces in `frontier` and those that they extend, level by level, without those
`seen` and each once, at most so many levels. -/
def closureFrom (scope : Scope) : Nat → List String → List String → List String
  | 0, _, _ => []
  | fuel + 1, seen, frontier =>
    match (frontier.filter fun name => !seen.contains name).eraseDups with
    | [] => []
    | fresh => fresh ++ closureFrom scope fuel (seen ++ fresh) (fresh.flatMap scope.interfacesOf)

/-- Every interface that a class has, directly or through its superclasses and interfaces,
nearest first. Interfaces that cannot be seen are listed too. -/
def interfaceClosure (scope : Scope) (name : String) : List String :=
  scope.closureFrom (scope.size + 2) [] ((scope.superclasses name).flatMap (·.interfaces))

/-! ## Members and assignability -/

/-- The class that declares a method of `owner`: one on the chain of superclasses, or else an
interface, or else, where none is known, `owner`. -/
def declaringClass (scope : Scope) (owner method descriptor : String) : String :=
  match scope.findMethod owner method descriptor with
  | some (stub, _) => stub.name
  | none =>
    let inherited := (scope.interfaceClosure owner).findSome? fun name =>
      (scope.lookup name).filter fun stub => (stub.method? method descriptor).isSome
    match inherited with
    | some stub => stub.name
    | none => owner

/-- What a scope tells about assignability. -/
def hierarchy (scope : Scope) : Typing.Hierarchy := fun name =>
  (scope.lookup name).map fun stub =>
    if stub.isInterface then .interface else .subclass stub.superName

end Scope
end ClassLoom
