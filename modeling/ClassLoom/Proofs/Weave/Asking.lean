import ClassLoom.Proofs.Weave.BatchOrder
import ClassLoom.Proofs.Weave.PassedOver

/-!
# Steps that ask

All that a step of a phase needs to know of polyfills it asks for by name, one class after another.
`Asking` is a computation with its questions left open. Whoever answers them may look each answer
up, or remember those that were given before.

* `Phase.asking`: the steps of the phases with their questions left open;
* `Phase.answered_asking`: with every answer looked up, they are the steps.
-/

namespace ClassLoom

/-- A computation that asks on its way for the polyfills of classes. -/
inductive Asking (α : Type) where
  | done (result : α)
  | ask (name : String) (next : Option Polyfill → Asking α)

namespace Asking

variable {α β : Type} {answer : String → Option Polyfill}

/-- One computation behind another. -/
def bind : Asking α → (α → Asking β) → Asking β
  | done result, f => f result
  | ask name next, f => ask name fun polyfill => (next polyfill).bind f

instance : Monad Asking where
  pure := done
  bind := bind

/-- The result where all questions get the given answers. -/
def answered (answer : String → Option Polyfill) : Asking α → α
  | done result => result
  | ask name next => (next (answer name)).answered answer

@[simp] theorem answered_pure (result : α) : (pure result : Asking α).answered answer = result :=
  rfl

/-- Answers are the same for both parts of a computation. -/
@[simp] theorem answered_bind (x : Asking α) (f : α → Asking β) :
    (x >>= f).answered answer = (f (x.answered answer)).answered answer := by
  induction x with
  | done result => rfl
  | ask name next ih => exact ih (answer name)

/-- The question for the polyfill of a class. -/
def polyfill? (name : String) : Asking (Option Polyfill) := ask name done

@[simp] theorem answered_polyfill? (name : String) :
    (polyfill? name).answered answer = answer name :=
  rfl

/-! ## Types

Substitution asks for every class in a type, one question each. Types are handled in the order in
which they stand in a descriptor. -/

/-- A type with the class in it substituted. -/
def substitute : FieldType → Asking FieldType
  | .base type => return .base type
  | .object name => do
    match ← polyfill? name with
    | some polyfill => return .object polyfill.name
    | none => return .object name
  | .array component => return .array (← substitute component)

/-- Types with the classes in them substituted, in order. -/
def substituteEach : List FieldType → Asking (List FieldType)
  | [] => return []
  | type :: rest => return (← substitute type) :: (← substituteEach rest)

/-- A method descriptor with all classes in it substituted, the result last. -/
def substituteAll (d : MethodDescriptor) : Asking MethodDescriptor := do
  let params ← substituteEach d.params
  match d.result with
  | .void => return { params, result := .void }
  | .value type => return { params, result := .value (← substitute type) }

section Types

variable (s : Surroundings)

/-- With every answer looked up, substitution is what it is. -/
@[simp] theorem answered_substitute (type : FieldType) :
    (substitute type).answered s.polyfill? = s.substitute type := by
  induction type with
  | base type => rfl
  | object name =>
    rw [substitute, answered_bind, answered_polyfill?, Surroundings.substitute]
    cases s.polyfill? name <;> rfl
  | array component ih =>
    rw [substitute, answered_bind, answered_pure, ih, Surroundings.substitute]

@[simp] theorem answered_substituteEach (types : List FieldType) :
    (substituteEach types).answered s.polyfill? = types.map s.substitute := by
  induction types with
  | nil => rfl
  | cons type types ih => simp only [substituteEach, answered_bind, answered_substitute, ih,
      answered_pure, List.map_cons]

/-- The same of whole descriptors. -/
@[simp] theorem answered_substituteAll (d : MethodDescriptor) :
    (substituteAll d).answered s.polyfill? = s.substituteAll d := by
  obtain ⟨params, result⟩ := d
  rw [substituteAll, answered_bind, answered_substituteEach]
  cases result with
  | void => rfl
  | value type =>
    simp only [answered_bind, answered_substitute, answered_pure]
    rfl

end Types
end Asking

/-! ## Plans

Planning can fail, and what comes behind an error asks nothing more. The planning functions are
those of the weaver with the look-ups taken out; each is shown to be that function once the look-ups
are put in as answers. Where the weaver substitutes a descriptor in several places, it is
substituted once here and passed on, so that it is asked for once. -/

/-- An asking computation that can fail. -/
abbrev Planner := ExceptT ClassError Asking

namespace Planner

variable {α β : Type} {answer : String → Option Polyfill}

/-- The result or the error where all questions get the given answers. -/
def answered (answer : String → Option Polyfill) (x : Planner α) : Except ClassError α :=
  Asking.answered answer x.run

@[simp] theorem answered_pure (result : α) :
    (pure result : Planner α).answered answer = .ok result := rfl

/-- With answers, a plan behind another is one behind the other: the second is not come to where the
first fails. -/
theorem answered_bind (x : Planner α) (f : α → Planner β) :
    (x >>= f).answered answer = x.answered answer >>= fun result => (f result).answered answer := by
  unfold answered
  rw [ExceptT.run_bind, Asking.answered_bind]
  cases x.run.answered answer <;> rfl

/-- A computation that does not ask, like looking something up in the pool. -/
theorem answered_bind_except (x : Except ClassError α) (f : α → Planner β) :
    ((liftM x : Planner α) >>= f).answered answer
      = x >>= fun result => (f result).answered answer :=
  answered_bind _ f

/-- A computation that cannot fail, like asking. -/
theorem answered_bind_asking (x : Asking α) (f : α → Planner β) :
    ((liftM x : Planner α) >>= f).answered answer = (f (x.answered answer)).answered answer := by
  have hx : (liftM x : Planner α).answered answer = .ok (x.answered answer) :=
    Asking.answered_bind x _
  rw [answered_bind, hx]
  rfl

/-- The casts of arguments to their substituted types. -/
def castArgs (params substituted : List FieldType) : List (FieldType × Option String) :=
  params.zip (substituted.map (·.classEntryName?))

/-- The plan for a constructor call whose object is made at `newPc`. -/
def ofConstructor (pc newPc : Nat) (target : MemberRef) : Planner CallPlan := do
  match ← Asking.polyfill? target.owner with
  | none => return .keep
  | some polyfill =>
    match polyfill.kind with
    | .mixin => return .keep
    | .replacement =>
      let d ← MethodDescriptor.parse target.descriptor
      let substituted ← Asking.substituteAll d
      return .redirect {
        pc
        receiverCast := none
        args := castArgs d.params substituted.params
        call := {
          opcode := Opcode.invokeSpecial
          owner := polyfill.name
          name := Typing.constructorName
          descriptor := substituted.text
          ofInterface := false }
        newSite := some (newPc, polyfill.name) }

section Substituted

variable (s : Surroundings) (pc : Nat) (target : MemberRef) (polyfill : Polyfill)
  (d substituted : MethodDescriptor)

/-- The plan for a call that goes on to a polyfill, with all references cast. -/
def withCasts (receiverCast : Option String) (call : Invocation) : CallPlan :=
  .redirect { pc, receiverCast, args := castArgs d.params substituted.params, call }

/-- The plan for a call that goes to a mixin. -/
def ofMixin (isStatic : Bool) (declaring : String) : CallPlan :=
  let descriptor :=
    if isStatic then substituted.text
    else "(L" ++ declaring ++ ";" ++ FieldType.textOfAll substituted.params ++ ")"
      ++ substituted.result.text
  let found := s.scope.findMethod polyfill.name target.name descriptor
  if (found.map fun (_, m) => m.isStatic).getD false then
    withCasts pc d substituted (if isStatic then none else some declaring) {
      opcode := Opcode.invokeStatic, owner := polyfill.name, name := target.name, descriptor
      ofInterface := polyfill.isInterface }
  else .unresolved polyfill.name target.name descriptor

/-- The plan for a static call that goes to a replacement, or to its companion. -/
def ofStatic : CallPlan :=
  let companion := s.conventions.companionName polyfill.name
  let toCompanion := polyfill.isInterface && (s.scope.lookup companion).isSome
  withCasts pc d substituted none {
    opcode := Opcode.invokeStatic
    owner := if toCompanion then companion else polyfill.name
    name := target.name
    descriptor := substituted.text
    ofInterface := !toCompanion && polyfill.isInterface }

/-- The plan for a call on an instance that goes to a replacement. -/
def ofInstance : CallPlan :=
  withCasts pc d substituted (some polyfill.name) {
    opcode := if polyfill.isInterface then Opcode.invokeInterface else Opcode.invokeVirtual
    owner := polyfill.name
    name := target.name
    descriptor := substituted.text
    ofInterface := polyfill.isInterface }

end Substituted

/-- The plan for a static, virtual or interface call. The descriptor is substituted once, and only
if the call goes to a polyfill. -/
def ofCall (s : Surroundings) (pc : Nat) (opcode : UInt8) (target : MemberRef) :
    Planner CallPlan := do
  let isStatic := opcode = Opcode.invokeStatic
  let d ← MethodDescriptor.parse target.descriptor
  if isStatic && target.name = s.conventions.lambdaFactory then
    return CallPlan.ofFactory s pc target d
  let declaring := s.scope.declaringClass target.owner target.name target.descriptor
  match ← Asking.polyfill? declaring with
  | none => return .keep
  | some polyfill =>
    let substituted ← Asking.substituteAll d
    match polyfill.kind with
    | .mixin => return ofMixin s pc target polyfill d substituted isStatic declaring
    | .replacement =>
      if isStatic then return ofStatic s pc target polyfill d substituted
      else return ofInstance pc target polyfill d substituted

/-- Goes on to the next instruction. -/
def visit (s : Surroundings) (pool : ConstantPool) (location : Location) (code : Code)
    (p : Planning) (entry : Nat × Instruction) : Planner Planning := do
  let (pc, i) := entry
  let op := i.opcode
  match i.word? with
  | none => return p
  | some index =>
    if op = Opcode.newObject then
      return { p with waiting := (pc, ← pool.getClassName index) :: p.waiting }
    else if op = Opcode.invokeSpecial then
      let target ← pool.getMember index
      if target.name ≠ Typing.constructorName then return p
      match p.waiting with
      | (newPc, name) :: rest =>
        if name = target.owner then
          let plan ← ofConstructor pc newPc target
          return Planning.add { p with waiting := rest } location (code.lineAt? pc) pc plan
        else return p
      | [] => return p
    else if op = Opcode.invokeStatic || op = Opcode.invokeVirtual
        || op = Opcode.invokeInterface then
      let target ← pool.getMember index
      let plan ← ofCall s pc op target
      return p.add location (code.lineAt? pc) pc plan
    else return p

/-- The calls of a body that go to polyfills, in order, and those that cannot. -/
def planAll (s : Surroundings) (pool : ConstantPool) (location : Location) (code : Code) :
    Planner (List CallSite × List Diagnostic) := do
  let instructions ← Instruction.decode code.bytecode
  let p ← instructions.foldlM (visit s pool location code) {}
  return (p.sites.reverse, p.diagnostics.reverse)

section Answered

variable (s : Surroundings)

/-- The casts of arguments can be read off the substituted descriptor. -/
theorem castArgs_substituteAll (d : MethodDescriptor) :
    castArgs d.params (s.substituteAll d).params = CallSite.castArgs s d.params := by
  obtain ⟨params, result⟩ := d
  show params.zip ((params.map s.substitute).map (·.classEntryName?)) = _
  induction params with
  | nil => rfl
  | cons type params ih =>
    rw [List.map_cons, List.map_cons, List.zip_cons_cons, ih]
    rfl

/-- Planning a constructor call asks for its class, and then for those in the descriptor. The
answers say what the planning goes on with. -/
theorem answered_ofConstructor (pc newPc : Nat) (target : MemberRef) :
    (ofConstructor pc newPc target).answered s.polyfill?
      = CallPlan.ofConstructor s pc newPc target := by
  unfold ofConstructor CallPlan.ofConstructor
  rw [answered_bind_asking, Asking.answered_polyfill?]
  cases s.polyfill? target.owner with
  | none => rfl
  | some polyfill =>
    obtain ⟨_, _, kind, _⟩ := polyfill
    cases kind with
    | mixin => rfl
    | replacement =>
      simp only [answered_bind_except, answered_bind_asking, Asking.answered_substituteAll,
        answered_pure, castArgs_substituteAll]
      rfl

section Substituted

variable (pc : Nat) (target : MemberRef) (polyfill : Polyfill) (d : MethodDescriptor)

/-- The plans that the rules make are those of the weaver, with the substituted descriptor passed to
them. All of these hold by unfolding. -/
theorem withCasts_substituteAll (receiverCast : Option String) (call : Invocation) :
    withCasts pc d (s.substituteAll d) receiverCast call
      = CallPlan.withCasts s pc d receiverCast call := by
  rw [withCasts, castArgs_substituteAll, CallPlan.withCasts]

theorem ofMixin_substituteAll (isStatic : Bool) (declaring : String) :
    ofMixin s pc target polyfill d (s.substituteAll d) isStatic declaring
      = CallPlan.ofMixin s pc isStatic target declaring polyfill d := by
  simp only [ofMixin, CallPlan.ofMixin, withCasts_substituteAll]

theorem ofStatic_substituteAll : ofStatic s pc target polyfill d (s.substituteAll d)
    = CallPlan.ofStatic s pc target polyfill d := by
  simp only [ofStatic, CallPlan.ofStatic, withCasts_substituteAll]

theorem ofInstance_substituteAll : ofInstance pc target polyfill d (s.substituteAll d)
    = CallPlan.ofInstance s pc target polyfill d := by
  simp only [ofInstance, CallPlan.ofInstance, withCasts_substituteAll]

end Substituted

/-- Planning a call asks for the class that declares the method. Only if that has a polyfill, the
classes in the descriptor are asked for. -/
theorem answered_ofCall (pc : Nat) (opcode : UInt8) (target : MemberRef) :
    (ofCall s pc opcode target).answered s.polyfill? = CallPlan.ofCall s pc opcode target := by
  unfold ofCall CallPlan.ofCall
  rw [answered_bind_except]
  refine bind_congr fun d => ?_
  split
  · rfl
  · simp only [answered_bind_asking, Asking.answered_polyfill?]
    cases s.polyfill? (s.scope.declaringClass target.owner target.name target.descriptor) with
    | none => rfl
    | some polyfill =>
      simp only [answered_bind_asking, Asking.answered_substituteAll, ofMixin_substituteAll,
        ofStatic_substituteAll, ofInstance_substituteAll]
      -- The rules get the substituted descriptor, which is asked for in front of them.
      cases polyfill.kind with
      | mixin => rfl
      | replacement =>
        simp only
        split <;> rfl

/-- One instruction is planned as before. The cases are those of the planner: an instruction without
an index, a `new`, a constructor call, another call, and anything else. -/
theorem answered_visit (pool : ConstantPool) (location : Location) (code : Code)
    (p : Planning) (entry : Nat × Instruction) :
    (visit s pool location code p entry).answered s.polyfill?
      = p.visit s pool location code entry := by
  unfold visit Planning.visit
  obtain ⟨pc, i⟩ := entry
  simp only
  cases i.word? with
  | none => rfl
  | some index =>
    simp only
    split
    -- A `new` is put on top of those that wait.
    · rw [answered_bind_except]
      rfl
    -- A constructor call is planned with the topmost one, if that is of its class.
    · split
      · rw [answered_bind_except]
        refine bind_congr fun target => ?_
        split
        · rfl
        · cases p.waiting with
          | nil => rfl
          | cons first rest =>
            simp only
            split
            · rw [answered_bind, answered_ofConstructor]
              rfl
            · rfl
      -- Any other call, and any other instruction.
      · split
        · rw [answered_bind_except]
          refine bind_congr fun target => ?_
          rw [answered_bind, answered_ofCall]
          rfl
        · rfl

/-- **A whole body is planned as before**, instruction by instruction. Nothing but the polyfills of
names is asked for, and each of them in turn. -/
theorem answered_planAll (pool : ConstantPool) (location : Location) (code : Code) :
    (planAll s pool location code).answered s.polyfill?
      = CallSite.planAll s pool location code := by
  have hvisits (entries : List (Nat × Instruction)) (p : Planning) :
      (entries.foldlM (visit s pool location code) p).answered s.polyfill?
        = entries.foldlM (Planning.visit s pool location code) p := by
    induction entries generalizing p with
    | nil => rfl
    | cons entry entries ih =>
      simp only [List.foldlM_cons, answered_bind, answered_visit, ih]
  unfold planAll CallSite.planAll
  rw [answered_bind_except]
  refine bind_congr fun instructions => ?_
  rw [answered_bind, hvisits]
  rfl

end Answered
end Planner

/-! ## Steps

A step takes the methods of a class in turn. Redirecting a method asks only while its calls are
planned; what is done then needs no answers. -/

namespace Asking

open Weave

variable (s : Surroundings)

/-- The methods of a class taken in turn, each with the pool that the one before it leaves. -/
def takeTurns (turn : ConstantPool → Member → Asking (Member × ConstantPool × List Diagnostic)) :
    ConstantPool → List Member → Asking (List Member × ConstantPool × List Diagnostic)
  | pool, [] => return ([], pool, [])
  | pool, m :: rest => do
    let (m, mid, found) ← turn pool m
    let (rest, last, more) ← takeTurns turn mid rest
    return (m :: rest, last, found ++ more)

/-- A method whose calls are redirected as planned. -/
def redirectPlanned (className : String) (m : Member) (code : Code)
    (plan : List CallSite × List Diagnostic) : Interning (Member × List Diagnostic) := do
  if plan.1.isEmpty then return (m, plan.2)
  let code ← redirectCode s className m code plan.1
  return (← m.setCode code, plan.2)

/-- A method with its calls sent to polyfills, and the pool then. All that there is to ask for it is
asked while its calls are planned. -/
def redirectMethod (className : String) (m : Member) (pool : ConstantPool) :
    Planner ((Member × List Diagnostic) × ConstantPool) := do
  match ← m.code? pool with
  | none => return ((m, []), pool)
  | some code =>
    let plan ← Planner.planAll s pool (.ofMethod className m.name m.descriptor) code
    (redirectPlanned s className m code plan).on pool

/-- The turn of a method whose calls are redirected. -/
def redirectTurn (className : String) (pool : ConstantPool) (m : Member) :
    Asking (Member × ConstantPool × List Diagnostic) := do
  match ← (redirectMethod s className m pool).run with
  | .ok ((m', found), pool') => return (m', pool', found)
  | .error e => return (m, pool, [.malformed (.ofMethod className m.name m.descriptor) e.message])

/-- Sends the calls of a class to polyfills. -/
def redirectCalls (c : ClassFile) : Asking (ClassFile × List Diagnostic) := do
  let (methods, pool, diagnostics) ← takeTurns (redirectTurn s c.name) c.pool c.methods
  return ({ c with methods, pool }, diagnostics)

/-- The polyfill of a carrier's functional interface, which is asked for only if there is one. -/
def carrierPolyfill? (c : ClassFile) : Asking (Option Polyfill) := do
  if !s.conventions.isLambdaCarrier c.name then return none
  match c.interfaces.head? with
  | none => return none
  | some name =>
    let polyfill ← polyfill? name
    return polyfill.filter fun polyfill => polyfill.kind = .replacement && polyfill.isInterface

/-- Gives a lambda carrier its new factory and the polyfill of its interface. -/
def prepareCarrier (c : ClassFile) : Asking (ClassFile × List Diagnostic) := do
  match ← carrierPolyfill? s c with
  | none => return (c, [])
  | some polyfill =>
    match (FactoryPlan.of? s.conventions c).on c.pool with
    | .ok (some plan, pool) =>
      return (addInterface polyfill.name (plan.commit { c with pool }), [])
    | .ok (none, _) => return (c, [])
    | .error e =>
      let location := Location.ofMethod c.name s.conventions.replacementFactory ""
      return (c, [.malformed location e.message])

/-- Retypes the local variables of a class. -/
def retypeAllLocals (c : ClassFile) : Asking (ClassFile × List Diagnostic) := do
  let legacy := s.conventions.localVariableType
  match ← polyfill? legacy with
  | none => return (c, [])
  | some polyfill =>
    let (retyped, pool, diagnostics) := c.methods.foldl
      (retypeNext c.name (descriptorOf legacy) (descriptorOf polyfill.name)) ([], c.pool, [])
    return ({ c with methods := retyped.reverse, pool }, diagnostics)

/-- The step of the first phase. Forwarders have nothing to ask. -/
def prepare (c : ClassFile) : Asking (ClassFile × List Diagnostic) := do
  let (c, first) ← prepareCarrier s c
  let (c, second) ← retypeAllLocals s c
  let (c, third) := addForwarders s c
  return (c, first ++ second ++ third)

/-- Takes the old interface and the old factory of a prepared lambda carrier away. -/
def narrow (c : ClassFile) : Asking (ClassFile × List Diagnostic) := do
  match ← carrierPolyfill? s c with
  | none => return (c, [])
  | some polyfill =>
    if c.methods.any (·.name = s.conventions.replacementFactory)
        && c.interfaces.contains polyfill.name then
      return ({ c with
        interfaces := c.interfaces.filter (· = polyfill.name)
        methods := c.methods.filter (·.name ≠ s.conventions.lambdaFactory) }, [])
    else return (c, [])

section Answered

/-- Redirecting the calls of a method is planning, which only reads the pool, and then doing what is
planned. In this form there is one place where questions are asked. -/
theorem redirectMethod_on (className : String) (m : Member) (pool : ConstantPool) :
    (Weave.redirectMethod s className m).on pool = m.code? pool >>= fun body => match body with
      | none => .ok ((m, []), pool)
      | some code =>
        CallSite.planAll s pool (.ofMethod className m.name m.descriptor) code >>= fun plan =>
          (redirectPlanned s className m code plan).on pool := by
  -- To read the pool, and to look something up in it, leaves it as it is.
  have hget {α : Type} (f : ConstantPool → Interning α) :
      ((get : Interning ConstantPool) >>= f).on pool = (f pool).on pool := rfl
  have hlift {α β : Type} (x : Except ClassError α) (f : α → Interning β) :
      ((liftM x : Interning α) >>= f).on pool = x >>= fun a => (f a).on pool := by
    cases x <;> rfl
  unfold Weave.redirectMethod
  rw [hget, hlift]
  refine bind_congr fun body => ?_
  cases body with
  | none => rfl
  | some code =>
    simp only
    rw [hlift]
    refine bind_congr fun ⟨sites, diagnostics⟩ => ?_
    unfold redirectPlanned
    rfl

/-- With answers, a method is redirected as it is. Planning is the only part that asks; the rest of
it only makes instructions. -/
theorem answered_redirectMethod (className : String) (m : Member) (pool : ConstantPool) :
    (redirectMethod s className m pool).answered s.polyfill?
      = (Weave.redirectMethod s className m).on pool := by
  rw [redirectMethod_on]
  unfold redirectMethod
  rw [Planner.answered_bind_except]
  refine bind_congr fun body => ?_
  cases body with
  | none => rfl
  | some code =>
    simp only
    rw [Planner.answered_bind, Planner.answered_planAll]
    rfl

/-- A turn that fails leaves the method alone and reports, with or without questions. -/
theorem answered_redirectTurn (className : String) (pool : ConstantPool) (m : Member) :
    (redirectTurn s className pool m).answered s.polyfill?
      = Weave.redirectTurn s className pool m := by
  have hmethod := answered_redirectMethod s className m pool
  unfold Planner.answered at hmethod
  unfold redirectTurn Weave.redirectTurn
  rw [answered_bind, hmethod]
  cases (Weave.redirectMethod s className m).on pool <;> rfl

/-- Turns are taken one after the other, each in the pool that the one before has left. -/
theorem answered_takeTurns {p : String → Option Polyfill}
    {turn : ConstantPool → Member → Asking (Member × ConstantPool × List Diagnostic)}
    (pool : ConstantPool) (ms : List Member) : (takeTurns turn pool ms).answered p
      = Weave.takeTurns (fun pool m => (turn pool m).answered p) pool ms := by
  induction ms generalizing pool with
  | nil => rfl
  | cons m ms ih => simp only [takeTurns, answered_bind, ih, answered_pure, Weave.takeTurns]

/-- So the second step is what it is. -/
theorem answered_redirectCalls (c : ClassFile) :
    (redirectCalls s c).answered s.polyfill? = Weave.redirectCalls s c := by
  rw [redirectCalls_takesTurns, redirectCalls, answered_bind, answered_takeTurns,
    funext₂ (answered_redirectTurn s c.name)]
  rfl

/-- Of a class the carrier's polyfill is asked for only where the class has the name of a carrier
and one interface at least. -/
theorem answered_carrierPolyfill? (c : ClassFile) :
    (carrierPolyfill? s c).answered s.polyfill? = Weave.carrierPolyfill? s c := by
  unfold carrierPolyfill? Weave.carrierPolyfill?
  split
  · rfl
  · cases c.interfaces.head? with
    | none => rfl
    | some name =>
      simp only [answered_bind, answered_polyfill?, answered_pure, Option.bind_eq_bind,
        Option.bind_some]
      cases s.polyfill? name <;> rfl

theorem answered_prepareCarrier (c : ClassFile) :
    (prepareCarrier s c).answered s.polyfill? = Weave.prepareCarrier s c := by
  unfold prepareCarrier Weave.prepareCarrier
  rw [answered_bind, answered_carrierPolyfill?]
  cases Weave.carrierPolyfill? s c with
  | none => rfl
  | some polyfill =>
    simp only
    rcases (FactoryPlan.of? s.conventions c).on c.pool with e | ⟨_ | plan, pool⟩ <;> rfl

theorem answered_retypeAllLocals (c : ClassFile) :
    (retypeAllLocals s c).answered s.polyfill? = Weave.retypeAllLocals s c := by
  unfold retypeAllLocals Weave.retypeAllLocals
  simp only [answered_bind, answered_polyfill?]
  cases s.polyfill? s.conventions.localVariableType <;> rfl

/-- So the first step is what it is. Its forwarders need no answers. -/
theorem answered_prepare (c : ClassFile) :
    (prepare s c).answered s.polyfill? = Weave.prepare s c := by
  simp only [prepare, answered_bind, answered_prepareCarrier, answered_retypeAllLocals,
    answered_pure, Weave.prepare, Step.andThen]

/-- And so is the third. -/
theorem answered_narrow (c : ClassFile) :
    (narrow s c).answered s.polyfill? = Weave.narrow s c := by
  unfold narrow Weave.narrow narrowCarrier
  rw [answered_bind, answered_carrierPolyfill?]
  cases Weave.carrierPolyfill? s c with
  | none => rfl
  | some polyfill =>
    simp only
    split <;> rfl

end Answered
end Asking

namespace Weave.Phase

/-- The step of a phase with its questions left open. -/
def asking : Phase → Surroundings → ClassFile → Asking (ClassFile × List Diagnostic)
  | prepare => Asking.prepare
  | redirect => Asking.redirectCalls
  | narrow => Asking.narrow

/-- **With every answer looked up, the step of a phase is what it is.** The worker that runs it may
so get its answers from wherever it likes, as long as they are those. -/
theorem answered_asking (p : Phase) (s : Surroundings) (c : ClassFile) :
    (p.asking s c).answered s.polyfill? = p.step s c := by
  cases p with
  | prepare => exact Asking.answered_prepare s c
  | redirect => exact Asking.answered_redirectCalls s c
  | narrow => exact Asking.answered_narrow s c

end Weave.Phase
end ClassLoom
