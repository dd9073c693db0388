import ClassLoom.Annotation
import ClassLoom.Descriptor.Parser

/-!
# Class stubs

What a class declares, without any method body: its supertypes, the signatures of its members
and the types of its annotations. A class has a stub only if its annotations and all its
method descriptors can be read.
-/

namespace ClassLoom

/-! ## Signatures -/

/-- The signature of a field. -/
structure FieldStub where
  access : UInt16
  name : String
  descriptor : String
  deriving DecidableEq, Repr

/-- The signature of a method. -/
structure MethodStub where
  access : UInt16
  name : String
  descriptor : String
  parsed : MethodDescriptor
  deriving DecidableEq, Repr

/-- The declarations of a class. -/
structure ClassStub where
  name : String
  access : UInt16
  superName : Option String
  interfaces : List String
  /-- The internal names of the types of its annotations. -/
  annotations : List String
  fields : List FieldStub
  methods : List MethodStub
  deriving DecidableEq, Repr

namespace MethodStub

/-- The signature of a method of a class file. -/
def ofMember (m : Member) : Except ClassError MethodStub := do
  let parsed ← MethodDescriptor.parse m.descriptor
  return { access := m.access, name := m.name, descriptor := m.descriptor, parsed }

/-- Whether the method belongs to the class and not to its instances. -/
def isStatic (m : MethodStub) : Bool := Access.has m.access Access.staticFlag

/-- Whether the method has no body. -/
def isAbstract (m : MethodStub) : Bool := Access.has m.access Access.abstractFlag

end MethodStub

namespace ClassStub

/-- Whether the class is an interface. -/
def isInterface (s : ClassStub) : Bool := Access.has s.access Access.interfaceFlag

/-- Whether the class carries an annotation of the given type. -/
def hasAnnotation (s : ClassStub) (name : String) : Bool := s.annotations.contains name

/-- The first method with the given name and descriptor. -/
def method? (s : ClassStub) (name descriptor : String) : Option MethodStub :=
  s.methods.find? fun m => m.name = name && m.descriptor = descriptor

/-- The first field with the given name and descriptor. -/
def field? (s : ClassStub) (name descriptor : String) : Option FieldStub :=
  s.fields.find? fun f => f.name = name && f.descriptor = descriptor

end ClassStub

/-! ## Stubs of class files -/

/-- The declarations of a class file. -/
def ClassFile.stub (c : ClassFile) : Except ClassError ClassStub := do
  let annotations ← c.annotations
  let methods ← c.methods.mapM MethodStub.ofMember
  return {
    name := c.name
    access := c.access
    superName := c.superName
    interfaces := c.interfaces
    annotations := annotations.filterMap (·.typeName)
    fields := c.fields.map fun f =>
      { access := f.access, name := f.name, descriptor := f.descriptor }
    methods }

end ClassLoom
