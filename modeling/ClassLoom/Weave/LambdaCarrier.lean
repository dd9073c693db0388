import ClassLoom.CodePatch
import ClassLoom.Diagnostic
import ClassLoom.Polyfill
import ClassLoom.Typing.SlotType
import ClassLoom.Weave.DefaultForwarder

/-!
# Lambda carriers

A lambda carrier is a class that has one functional interface and a factory for its instances.
Where the interface has a polyfill, preparing gives the carrier a second factory, which
returns the carrier itself, and the polyfill as one more interface. Once all calls in the
batch go to the new factory, narrowing takes the old interface and the old factory away.

A carrier that captures nothing has one instance, in a static field. If the field is missing
it is added and filled in the static initializer.
-/

namespace ClassLoom.Weave

/-! ## Carriers -/

/-- The name of static initializers. -/
def staticInitializer : String := "<clinit>"

/-- The polyfill of a carrier's functional interface, which is its first one. It must be an
interface that replaces it. -/
def carrierPolyfill? (s : Surroundings) (c : ClassFile) : Option Polyfill := do
  if !s.conventions.isLambdaCarrier c.name then none
  let polyfill ← s.polyfill? (← c.interfaces.head?)
  if polyfill.kind = .replacement && polyfill.isInterface then return polyfill else none

/-! ## New factories

Everything that a carrier gets is made before any of it is put into the class. A carrier for which a
part cannot be made stays as it was, its pool included. -/

/-- What a carrier gets. -/
structure FactoryPlan where
  factory : Member
  instanceField : Option Member := none
  /-- A static initializer, in the place of the one at the index if there is one. -/
  clinit : Option (Option Nat × Member) := none
  deriving DecidableEq, Repr

namespace FactoryPlan

/-- The instructions that make the only instance of a carrier and put it into its field. -/
def makeInstance (carrier field descriptor : String) : Interning (List Instruction) := do
  let classAt ← ConstantPool.internClass carrier
  let initAt ← ConstantPool.internMethod carrier Typing.constructorName "()V" false
  let fieldAt ← ConstantPool.internField carrier field descriptor
  return [.withWord Opcode.newObject classAt, .op Opcode.dup,
    .withWord Opcode.invokeSpecial initAt, .withWord Opcode.putStatic fieldAt]

/-- Puts instructions in front of a static initializer. -/
def extendInitializer (m : Member) (instructions : List Instruction) : Interning Member := do
  let pool ← get
  match ← m.code? pool with
  | none => throw (.malformed Code.attributeName)
  | some code =>
    let patched ← (CodePatch.empty.insertBefore 0 instructions).apply code
    m.setCode { patched with maxStack := max patched.maxStack 2 }

/-- A static initializer that consists of the given instructions. -/
def newInitializer (instructions : List Instruction) : Interning Member := do
  let bytecode ← Instruction.assemble (instructions ++ [.op Opcode.vreturn])
  let m : Member :=
    { access := Access.staticFlag, name := staticInitializer, descriptor := "()V" }
  m.setCode { maxStack := 2, maxLocals := 0, bytecode }

/-- The static initializer that fills the field with the carrier's only instance. -/
def initializer (c : ClassFile) (field descriptor : String) :
    Interning (Option Nat × Member) := do
  let instructions ← makeInstance c.name field descriptor
  let position := c.methods.findIdx? fun m => m.name = staticInitializer && m.descriptor = "()V"
  match position, position.bind (c.methods[·]?) with
  | some i, some m => return (some i, ← extendInitializer m instructions)
  | _, _ => return (none, ← newInitializer instructions)

/-- The body of a factory that gives out the instance in a static field. -/
def sharedBody (carrier field descriptor : String) : Interning Code := do
  let fieldAt ← ConstantPool.internField carrier field descriptor
  let bytecode ← Instruction.assemble
    [.withWord Opcode.getStatic fieldAt, .op Opcode.areturn]
  return { maxStack := 1, maxLocals := 0, bytecode }

/-- The body of a factory that makes a new instance out of its arguments. -/
def freshBody (carrier : String) (params : List FieldType) (constructorDescriptor : String) :
    Interning Code := do
  let classAt ← ConstantPool.internClass carrier
  let initAt ←
    ConstantPool.internMethod carrier Typing.constructorName constructorDescriptor false
  let bytecode ← Instruction.assemble
    ([.withWord Opcode.newObject classAt, .op Opcode.dup] ++ loadParams 0 params
      ++ [.withWord Opcode.invokeSpecial initAt, .op Opcode.areturn])
  let slots := FieldType.widthOfAll params
  return { maxStack := UInt16.ofNat (2 + slots), maxLocals := UInt16.ofNat slots, bytecode }

/-- The plan for a carrier whose factory takes no arguments. Nothing if there is neither an
instance nor a way to make one. -/
def shared? (conventions : Conventions) (c : ClassFile) (factory : Member)
    (descriptor : String) : Interning (Option FactoryPlan) := do
  let field := conventions.lambdaInstanceField
  let declared := (Member.find? field descriptor c.fields).map (·.isStatic)
  if declared.getD false then
    let body ← sharedBody c.name field descriptor
    return some { factory := ← factory.setCode body }
  else if (Member.find? Typing.constructorName "()V" c.methods).isNone then return none
  else
    -- The initializer is made before the factory, so its symbols come first in the pool.
    let clinit ← initializer c field descriptor
    let body ← sharedBody c.name field descriptor
    let access := Access.privateFlag ||| Access.staticFlag ||| Access.finalFlag
      ||| Access.syntheticFlag
    return some {
      factory := ← factory.setCode body
      instanceField := some { access, name := field, descriptor }
      clinit := some clinit }

/-- The plan for a carrier whose factory takes arguments. Nothing if no constructor takes the
same. -/
def fresh? (c : ClassFile) (factory : Member) (params : List FieldType) :
    Interning (Option FactoryPlan) := do
  let descriptor := "(" ++ FieldType.textOfAll params ++ ")V"
  if (Member.find? Typing.constructorName descriptor c.methods).isNone then return none
  let body ← freshBody c.name params descriptor
  return some { factory := ← factory.setCode body }

/-- The plan for a carrier. Nothing if it has the new factory already, lacks the old one, or
lacks what the new one would need. -/
def of? (conventions : Conventions) (c : ClassFile) : Interning (Option FactoryPlan) := do
  if c.methods.any (·.name = conventions.replacementFactory) then return none
  match c.methods.find? fun m => m.name = conventions.lambdaFactory && m.isStatic with
  | none => return none
  | some old =>
    let params := (← MethodDescriptor.parse old.descriptor).params
    let carrier := "L" ++ c.name ++ ";"
    let factory : Member :=
      { access := Access.publicFlag ||| Access.staticFlag
        name := conventions.replacementFactory
        descriptor := "(" ++ FieldType.textOfAll params ++ ")" ++ carrier }
    if params.isEmpty then shared? conventions c factory carrier else fresh? c factory params

/-- Gives a class what the plan says. -/
def commit (plan : FactoryPlan) (c : ClassFile) : ClassFile :=
  let methods :=
    match plan.clinit with
    | some (some i, m) => c.methods.set i m
    | some (none, m) => c.methods ++ [m]
    | none => c.methods
  { c with fields := c.fields ++ plan.instanceField.toList, methods := methods ++ [plan.factory] }

end FactoryPlan

/-! ## Preparing and narrowing

The two steps that the phases of weaving take on a carrier. Narrowing looks at what preparing left
behind, not at the plan. -/

/-- Gives a class one more interface, unless it has it. -/
def addInterface (name : String) (c : ClassFile) : ClassFile :=
  if c.interfaces.contains name then c else { c with interfaces := c.interfaces ++ [name] }

/-- Gives a lambda carrier its new factory and the polyfill of its interface. -/
def prepareCarrier (s : Surroundings) (c : ClassFile) : ClassFile × List Diagnostic :=
  match carrierPolyfill? s c with
  | none => (c, [])
  | some polyfill =>
    match (FactoryPlan.of? s.conventions c).on c.pool with
    | .ok (some plan, pool) =>
      (addInterface polyfill.name (plan.commit { c with pool }), [])
    | .ok (none, _) => (c, [])
    | .error e =>
      let location := Location.ofMethod c.name s.conventions.replacementFactory ""
      (c, [.malformed location e.message])

/-- Takes the old interface and the old factory of a prepared lambda carrier away. -/
def narrowCarrier (s : Surroundings) (c : ClassFile) : ClassFile :=
  match carrierPolyfill? s c with
  | none => c
  | some polyfill =>
    if c.methods.any (·.name = s.conventions.replacementFactory)
        && c.interfaces.contains polyfill.name then
      { c with
        interfaces := c.interfaces.filter (· = polyfill.name)
        methods := c.methods.filter (·.name ≠ s.conventions.lambdaFactory) }
    else c

end ClassLoom.Weave
