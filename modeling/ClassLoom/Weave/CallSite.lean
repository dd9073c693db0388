import ClassLoom.Code.LineNumber
import ClassLoom.Diagnostic
import ClassLoom.Instruction.Decode
import ClassLoom.Polyfill
import ClassLoom.Typing.SlotType

/-!
# Call sites

Which calls of a body go to polyfills instead, and how. Planning only reads the constant pool;
a site names its symbols, and they are interned when instructions are emitted for it.

A constructor call belongs to the `new` before it that still waits for one of its class. Calls
of a constructor that have no such `new` are calls of the superclass and stay.
-/

namespace ClassLoom

/-! ## Sites and plans

What is known about a call that goes to a polyfill before any instruction is made for it. All
symbols are texts here, so that planning leaves the pool alone. -/

/-- A call of a method, by name. -/
structure Invocation where
  opcode : UInt8
  owner : String
  name : String
  descriptor : String
  /-- Whether `owner` is an interface. -/
  ofInterface : Bool
  deriving DecidableEq, Repr

/-- A call that goes to a polyfill. -/
structure CallSite where
  pc : Nat
  /-- The class that the receiver is cast to, if it is. -/
  receiverCast : Option String
  /-- The parameter types of the call as it was, each with the class that the argument is cast
  to, if it is. -/
  args : List (FieldType × Option String)
  call : Invocation
  /-- The `new` that makes the receiver of a constructor call, and the class to make. -/
  newSite : Option (Nat × String) := none
  deriving DecidableEq, Repr

/-- What becomes of a call. -/
inductive CallPlan where
  | keep
  | redirect (site : CallSite)
  /-- The call would go to a mixin that lacks the method. -/
  | unresolved (polyfill name descriptor : String)
  deriving DecidableEq, Repr

namespace CallSite

/-- Whether an argument or the receiver needs a cast. -/
def needsSpill (site : CallSite) : Bool :=
  site.receiverCast.isSome || site.args.any fun (_, cast) => cast.isSome

/-- The arguments of a call, each reference cast to its substituted type. -/
def castArgs (s : Surroundings) (params : List FieldType) : List (FieldType × Option String) :=
  params.map fun t => (t, (s.substitute t).classEntryName?)

end CallSite

namespace CallPlan

/-! ## Plans by the kind of call

A constructor call, a call of a factory, and the three ways in which a call of a method goes to a
polyfill. Which of them it is follows from the opcode, the name, and the polyfill of the class that
declares the method. -/

/-- The plan for a call that goes on to a polyfill, with all references cast. -/
def withCasts (s : Surroundings) (pc : Nat) (d : MethodDescriptor) (receiverCast : Option String)
    (call : Invocation) : CallPlan :=
  .redirect { pc, receiverCast, args := CallSite.castArgs s d.params, call }

/-- The plan for a constructor call whose object is made at `newPc`. -/
def ofConstructor (s : Surroundings) (pc newPc : Nat) (target : MemberRef) :
    Except ClassError CallPlan :=
  match s.polyfill? target.owner with
  | none => return keep
  | some polyfill =>
    match polyfill.kind with
    | .mixin => return keep
    | .replacement => do
      let d ← MethodDescriptor.parse target.descriptor
      return .redirect {
        pc
        receiverCast := none
        args := CallSite.castArgs s d.params
        call := {
          opcode := Opcode.invokeSpecial
          owner := polyfill.name
          name := Typing.constructorName
          descriptor := (s.substituteAll d).text
          ofInterface := false }
        newSite := some (newPc, polyfill.name) }

/-- The plan for a call of a lambda carrier's factory: the carrier's own factory takes its
place if it can be seen. -/
def ofFactory (s : Surroundings) (pc : Nat) (target : MemberRef) (d : MethodDescriptor) :
    CallPlan :=
  let descriptor := "(" ++ FieldType.textOfAll d.params ++ ")L" ++ target.owner ++ ";"
  let name := s.conventions.replacementFactory
  let declared := (s.scope.lookup target.owner).bind (·.method? name descriptor)
  if (declared.map (·.isStatic)).getD false then
    .redirect {
      pc
      receiverCast := none
      args := d.params.map (·, none)
      call := {
        opcode := Opcode.invokeStatic, owner := target.owner, name, descriptor
        ofInterface := false } }
  else keep

/-- The plan for a call of a method declared in `declaring` that goes to a mixin. -/
def ofMixin (s : Surroundings) (pc : Nat) (isStatic : Bool) (target : MemberRef)
    (declaring : String) (polyfill : Polyfill) (d : MethodDescriptor) : CallPlan :=
  let substituted := s.substituteAll d
  -- A mixin's method takes the receiver as its first argument, by the class that declares the
  -- method that was called.
  let descriptor :=
    if isStatic then substituted.text
    else "(L" ++ declaring ++ ";" ++ FieldType.textOfAll substituted.params ++ ")"
      ++ substituted.result.text
  let found := s.scope.findMethod polyfill.name target.name descriptor
  if (found.map fun (_, m) => m.isStatic).getD false then
    withCasts s pc d (if isStatic then none else some declaring) {
      opcode := Opcode.invokeStatic, owner := polyfill.name, name := target.name, descriptor
      ofInterface := polyfill.isInterface }
  else unresolved polyfill.name target.name descriptor

/-- The plan for a static call that goes to a replacement: to the companion, where the
replacement is an interface that has one. -/
def ofStatic (s : Surroundings) (pc : Nat) (target : MemberRef) (polyfill : Polyfill)
    (d : MethodDescriptor) : CallPlan :=
  let companion := s.conventions.companionName polyfill.name
  let toCompanion := polyfill.isInterface && (s.scope.lookup companion).isSome
  withCasts s pc d none {
    opcode := Opcode.invokeStatic
    owner := if toCompanion then companion else polyfill.name
    name := target.name
    descriptor := (s.substituteAll d).text
    ofInterface := !toCompanion && polyfill.isInterface }

/-- The plan for a call on an instance that goes to a replacement. -/
def ofInstance (s : Surroundings) (pc : Nat) (target : MemberRef) (polyfill : Polyfill)
    (d : MethodDescriptor) : CallPlan :=
  withCasts s pc d (some polyfill.name) {
    opcode := if polyfill.isInterface then Opcode.invokeInterface else Opcode.invokeVirtual
    owner := polyfill.name
    name := target.name
    descriptor := (s.substituteAll d).text
    ofInterface := polyfill.isInterface }

/-- The plan for a static, virtual or interface call. -/
def ofCall (s : Surroundings) (pc : Nat) (opcode : UInt8) (target : MemberRef) :
    Except ClassError CallPlan := do
  let isStatic := opcode = Opcode.invokeStatic
  let d ← MethodDescriptor.parse target.descriptor
  -- The factory of a lambda carrier stays in its class, whether that has a polyfill or not.
  if isStatic && target.name = s.conventions.lambdaFactory then return ofFactory s pc target d
  let declaring := s.scope.declaringClass target.owner target.name target.descriptor
  match s.polyfill? declaring with
  | none => return keep
  | some polyfill =>
    match polyfill.kind with
    | .mixin => return ofMixin s pc isStatic target declaring polyfill d
    | .replacement =>
      if isStatic then return ofStatic s pc target polyfill d
      else return ofInstance s pc target polyfill d

end CallPlan

/-! ## Planning a body

Instructions are visited in order. Of what was seen before, only the `new` instructions that wait
for their constructor call matter. -/

/-- How far the planning of a body has come. -/
structure Planning where
  /-- The `new` instructions that wait for a constructor call, latest first, and their
  classes. -/
  waiting : List (Nat × String) := []
  /-- The sites so far, last one first. -/
  sites : List CallSite := []
  /-- The diagnostics so far, last one first. -/
  diagnostics : List Diagnostic := []

namespace Planning

/-- Takes the plan for the call at `pc` up. -/
def add (p : Planning) (location : Location) (line : Option UInt16) (pc : Nat) :
    CallPlan → Planning
  | .keep => p
  | .redirect site => { p with sites := site :: p.sites }
  | .unresolved polyfill name descriptor =>
    let diagnostic : Diagnostic :=
      { location := location.atInstruction pc line
        finding := .unresolvedMixinMethod polyfill name descriptor }
    { p with diagnostics := diagnostic :: p.diagnostics }

/-- Goes on to the next instruction. -/
def visit (s : Surroundings) (pool : ConstantPool) (location : Location) (code : Code)
    (p : Planning) (entry : Nat × Instruction) : Except ClassError Planning := do
  let (pc, i) := entry
  let op := i.opcode
  match i.word? with
  | none => return p
  | some index =>
    if op = Opcode.newObject then
      return { p with waiting := (pc, ← pool.getClassName index) :: p.waiting }
    else if op = Opcode.invokeSpecial then
      let target ← pool.getMember index
      if target.name ≠ Typing.constructorName then return p
      -- The latest object of the class is taken to be the receiver; the operand stack is not looked
      -- at.
      match p.waiting with
      | (newPc, name) :: rest =>
        if name = target.owner then
          let plan ← CallPlan.ofConstructor s pc newPc target
          return add { p with waiting := rest } location (code.lineAt? pc) pc plan
        else return p
      | [] => return p
    else if op = Opcode.invokeStatic || op = Opcode.invokeVirtual
        || op = Opcode.invokeInterface then
      let target ← pool.getMember index
      let plan ← CallPlan.ofCall s pc op target
      return p.add location (code.lineAt? pc) pc plan
    else return p

end Planning

/-- The calls of a body that go to polyfills, in order, and those that cannot. -/
def CallSite.planAll (s : Surroundings) (pool : ConstantPool) (location : Location)
    (code : Code) : Except ClassError (List CallSite × List Diagnostic) := do
  let instructions ← Instruction.decode code.bytecode
  let p ← instructions.foldlM (Planning.visit s pool location code) {}
  return (p.sites.reverse, p.diagnostics.reverse)

end ClassLoom
