import ClassLoom.Code
import ClassLoom.Diagnostic
import ClassLoom.Instruction.Encode
import ClassLoom.Polyfill

/-!
# Forwarders of default methods

The body of a default method lies in the companion of its interface, as a static method that
takes the receiver as its first argument. A class that has the interface, but no body of its
own for the method, gets a method that calls the one of the companion. Of several interfaces
that have such a method the nearest counts.
-/

namespace ClassLoom.Weave

/-! ## Which methods are forwarded

A forwarder exists for a method without a body whose companion has one. The class and its
superclasses are asked before the interfaces, and a nearer interface before a farther one. -/

/-- A method that calls the companion of an interface. -/
structure Forwarder where
  name : String
  descriptor : String
  parsed : MethodDescriptor
  /-- The class to call. -/
  companion : String
  /-- The descriptor of the method to call. -/
  companionDescriptor : String
  deriving DecidableEq, Repr

namespace Forwarder

/-- What two methods of a class cannot share. -/
def key (f : Forwarder) : String × String := (f.name, f.descriptor)

/-- A method's descriptor with the receiver as the first parameter. -/
def withReceiver (interfaceName descriptor : String) : String :=
  "(L" ++ interfaceName ++ ";" ++ String.ofList (descriptor.toList.drop 1)

/-- The forwarder for a method of an interface, if it has no body and the companion has it. -/
def ofMethod? (interfaceName companionName : String) (companion : ClassStub) (m : MethodStub) :
    Option Forwarder :=
  let descriptor := withReceiver interfaceName m.descriptor
  let target := companion.method? m.name descriptor
  if m.isAbstract && !m.isStatic && (target.map (·.isStatic)).getD false then
    some {
      name := m.name, descriptor := m.descriptor, parsed := m.parsed
      companion := companionName, companionDescriptor := descriptor }
  else none

/-- The forwarders for the methods of an interface that can be seen with its companion. -/
def ofInterface (s : Surroundings) (interfaceName : String) : List Forwarder :=
  let companionName := s.conventions.companionName interfaceName
  match s.scope.lookup interfaceName, s.scope.lookup companionName with
  | some stub, some companion =>
    stub.methods.filterMap (ofMethod? interfaceName companionName companion)
  | _, _ => []

/-- The methods that a class need not get: its own, and those of its superclasses that have a
body. -/
def implemented (s : Surroundings) (c : ClassFile) : List (String × String) :=
  let inherited := ((s.scope.superclasses c.name).drop 1).flatMap fun stub =>
    (stub.methods.filter fun m => !m.isAbstract).map fun m => (m.name, m.descriptor)
  c.methods.map (fun m => (m.name, m.descriptor)) ++ inherited

/-- The first forwarder of every method that is not among those `taken`. -/
def firstOfEach (taken : List (String × String)) : List Forwarder → List Forwarder
  | [] => []
  | f :: rest =>
    if taken.contains f.key then firstOfEach taken rest
    else f :: firstOfEach (f.key :: taken) rest

/-- The forwarders that a class needs. -/
def needed (s : Surroundings) (c : ClassFile) : List Forwarder :=
  firstOfEach (implemented s c) ((s.scope.interfaceClosure c.name).flatMap (ofInterface s))

end Forwarder

/-! ## Making forwarders

The body of a forwarder pushes the receiver and all parameters, calls the companion, and returns
what it gives. It has no branches, so it needs no frames. -/

/-- The instructions that push parameters which lie in local variables from `slot` on. -/
def loadParams (slot : Nat) : List FieldType → List Instruction
  | [] => []
  | type :: rest => .load type (UInt16.ofNat slot) :: loadParams (slot + type.width) rest

namespace Forwarder

/-- The method that a class gets. -/
def method (f : Forwarder) : Interning Member := do
  let target ← ConstantPool.internMethod f.companion f.name f.companionDescriptor false
  let bytecode ← Instruction.assemble (.op Opcode.aload0 :: loadParams 1 f.parsed.params
    ++ [.withWord Opcode.invokeStatic target, .returnOf f.parsed.result])
  let slots := 1 + f.parsed.paramSlots
  let code : Code :=
    { maxStack := UInt16.ofNat (max slots f.parsed.result.width)
      maxLocals := UInt16.ofNat slots
      bytecode }
  let m : Member := { access := Access.publicFlag, name := f.name, descriptor := f.descriptor }
  m.setCode code

/-- Gives a class one more forwarder. -/
def addTo (state : ClassFile × List Diagnostic) (f : Forwarder) : ClassFile × List Diagnostic :=
  let (c, diagnostics) := state
  match f.method.on c.pool with
  | .ok (m, pool) => ({ c with methods := c.methods ++ [m], pool }, diagnostics)
  | .error e =>
    let location := Location.ofMethod c.name f.name f.descriptor
    (c, diagnostics ++ [.malformed location e.message])

end Forwarder

/-- Gives a class all forwarders that it needs. Interfaces need none. -/
def addForwarders (s : Surroundings) (c : ClassFile) : ClassFile × List Diagnostic :=
  if c.isInterface then (c, []) else (Forwarder.needed s c).foldl Forwarder.addTo (c, [])

end ClassLoom.Weave
