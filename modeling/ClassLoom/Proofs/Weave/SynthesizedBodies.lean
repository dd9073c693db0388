import ClassLoom.Proofs.Descriptor.Accepted
import ClassLoom.Proofs.Weave.BodyMachine
import ClassLoom.Proofs.Weave.CallSite
import ClassLoom.Proofs.Weave.FactoryPlans

/-!
# What synthesized bodies do

A forwarder hands its receiver and all its parameters over to the method of the companion, and
the new factory of a carrier that captures something hands its parameters over to the constructor
of a new carrier. Both load parameters from where a call has left them, so their slots are the
running totals of the widths before them.

A forwarder writes the name of its interface into a descriptor, as it was found. An interface whose
name has a semicolon is read back as more than one parameter there (`callee_isNamed_iff`), and
`forwarder_of_semicolon` is a forwarder that hands over less than its companion takes. The
constructor of a carrier takes what the old factory took, and its descriptor can always be read
back.

* `Forwarder.callsAndReturns`, `freshInstructions_callsAndReturns`: runs of the two bodies;
* `synthesized_call_and_return`: whenever a body is made, it decodes to what was assembled, calls
  with the operands in order and returns, within the limits that it declares.
-/

namespace ClassLoom

open ConstantPool

/-! ## Bodies of straight code

What is written for a new method has no branch in it, so that it is read back as the very list of
instructions it was made of. -/

namespace Instruction

/-- Whether an instruction has no code offsets and is written as it is read. -/
def IsStraight (i : Instruction) : Prop := (∃ bs, i = .plain bs) ∧ i.WellFormed

theorem isStraight_op {op : UInt8} (h : IsFixed op 1) : (Instruction.op op).IsStraight :=
  ⟨⟨_, rfl⟩, isWhole_of_isFixed h⟩

theorem isStraight_withWord {op : UInt8} (h : IsFixed op 3) (index : UInt16) :
    (withWord op index).IsStraight :=
  ⟨⟨_, rfl⟩, wellFormed_withWord h index⟩

/-- Returns of all types are straight. -/
theorem isStraight_returnOf (type : ReturnType) : (returnOf type).IsStraight := by
  cases type with
  | void => exact isStraight_op (by decide)
  | value type =>
    obtain ⟨f, hf⟩ := Machine.family_lt type
    have hfixed : ∀ f : Fin 5, IsFixed (Opcode.ireturn + UInt8.ofNat f) 1 := by decide
    have hop := isStraight_op (hfixed f)
    rw [← hf] at hop
    exact hop

/-- The loads of parameters are straight, in the short form as well as with a slot behind the
opcode. -/
theorem isStraight_of_mem_loadParams {types : List FieldType} {slot : Nat} {i : Instruction}
    (h : i ∈ Weave.loadParams slot types) : i.IsStraight := by
  refine ⟨Weave.exists_of_mem_loadParams h, ?_⟩
  induction types generalizing slot with
  | nil => cases h
  | cons type rest ih =>
    rcases List.mem_cons.1 h with rfl | h
    · exact (IsMove.load type _).wellFormed.1
    · exact ih h

end Instruction

open Instruction (IsStraight)

/-- Whether a method has a body that is made of the given instructions, and decodes to them. -/
structure Member.HasBody (m : Member) (pool : ConstantPool) (code : Code)
    (instructions : List Instruction) : Prop where
  code? : m.code? pool = .ok (some code)
  assembled : Instruction.assemble instructions = .ok code.bytecode
  decoded : Instruction.decode code.bytecode = .ok (Instruction.laidOut 0 instructions)

/-- A method that is given straight code has it. Its instructions are those that have been
assembled. -/
theorem Member.hasBody_of_setCode {m m' : Member} {code : Code} {pool pool' : ConstantPool}
    {instructions : List Instruction} (hpool : Located pool)
    (hassembled : Instruction.assemble instructions = .ok code.bytecode)
    (hstraight : ∀ i ∈ instructions, i.IsStraight) (hne : instructions ≠ [])
    (h : m.setCode code pool = .ok m' pool') : m'.HasBody pool' code instructions := by
  obtain ⟨info, hinfo, _⟩ := setCode_eq_ok h
  have hdecoded := Instruction.decode_of_plain hassembled (fun i hi => (hstraight i hi).1)
    (fun i hi => (hstraight i hi).2) (Code.bytes_eq_ok hinfo).1
  have hbytecode : code.bytecode ≠ [] := by
    intro hempty
    rw [hempty] at hdecoded
    have hnone := (Instruction.decode_eq_ok.1 hdecoded).1
    cases instructions with
    | nil => exact hne rfl
    | cons i rest => simp [Instruction.decodeOnto, Instruction.laidOut] at hnone
  exact ⟨code?_setCode hbytecode hpool h (Grown.refl _), hassembled, hdecoded⟩

/-! ## One call, and then a return

Both kinds of methods do the same: they bring operands on the stack, call once, and return. The run
is that of the machine with operands, which refuses a slot or a depth beyond the limits that the
body declares. -/

namespace Machine

variable {V : Type}

/-- Whether instructions make one call and return then. Run on an empty stack, they have `handed`
on it for the call, in order, with `kept` under them and all local variables as they were; and
once the call has given `result`, they return `returned` by the opcode `last`. -/
def CallsAndReturns (created : String → V) (pool : ConstantPool) (b : Bounds)
    (instructions : List Instruction) (locals : Nat → Cell V) (opcode : UInt8) (target : MemberRef)
    (handed kept : List (Operand V)) (result : Option (Operand V)) (last : UInt8)
    (returned : Option (Operand V)) : Prop :=
  ∃ rest s, runToStop created pool b instructions { stack := [], locals }
      = some (.call opcode target { stack := handed.reverse ++ kept, locals } rest)
    ∧ resume b kept locals result = some s
    ∧ runToStop created pool b rest s = some (.returned last returned)

/-- Whether operands are what the method with the descriptor takes in a call by the opcode. -/
structure TakenBy (opcode : UInt8) (target : MemberRef) (callee : MethodDescriptor)
    (handed : List (Operand V)) : Prop where
  descriptor : target.descriptor = callee.text
  operands : AreOf (CallPlan.takes opcode target.owner callee) handed

/-- If there is room for what a call gives, the run goes on with it on top of what the call has not
taken. -/
theorem resume_eq {b : Bounds} {kept : List (Operand V)} {locals : Nat → Cell V}
    {result : Option (Operand V)} (h : depth (result.toList ++ kept) ≤ b.depth) :
    resume b kept locals result = some { stack := result.toList ++ kept, locals } := by
  cases result with
  | none => rfl
  | some o => exact if_pos h

/-- A result takes what its type says. -/
theorem Gives.depth_eq {type : ReturnType} {result : Option (Operand V)} (h : Gives type result) :
    depth result.toList = type.width := by
  cases type with
  | void =>
    obtain rfl : result = none := h
    rfl
  | value type =>
    obtain ⟨o, rfl, hfamily⟩ := h
    exact (depth_cons o []).trans (width_eq_of_family hfamily)

end Machine

/-- No result takes more than two slots. -/
theorem ReturnType.width_le (type : ReturnType) : type.width ≤ 2 := by
  cases type with
  | void => exact Nat.zero_le 2
  | value type =>
    show type.width ≤ 2
    unfold FieldType.width
    split <;> decide

open Machine

namespace Weave

/-! ## Forwarders

A forwarder is an instance method with the descriptor of the interface method. It calls the static
method of the companion, which takes the receiver as its first parameter. -/

namespace Forwarder

/-- Whether a forwarder is one for a method of the interface. -/
structure IsFor (f : Forwarder) (interfaceName : String) : Prop where
  descriptor : f.descriptor = f.parsed.text
  companion : f.companionDescriptor = withReceiver interfaceName f.descriptor

/-- The method that a forwarder calls. -/
def target (f : Forwarder) : MemberRef where
  kind := .method
  owner := f.companion
  name := f.name
  descriptor := f.companionDescriptor

/-- What the called method takes and gives. -/
def callee (f : Forwarder) (interfaceName : String) : MethodDescriptor where
  params := .object interfaceName :: f.parsed.params
  result := f.parsed.result

/-- The descriptor that a forwarder calls by is written for its receiver and its parameters. -/
theorem IsFor.text_callee {f : Forwarder} {interfaceName : String} (h : f.IsFor interfaceName) :
    f.companionDescriptor = (f.callee interfaceName).text := by
  rw [h.companion, h.descriptor, withReceiver_text]
  rfl

/-- It is read back as them exactly if the class names in it can stand there. -/
theorem IsFor.parse_iff {f : Forwarder} {interfaceName : String} (h : f.IsFor interfaceName) :
    MethodDescriptor.parse f.companionDescriptor = .ok (f.callee interfaceName)
      ↔ (f.callee interfaceName).IsNamed := by
  rw [MethodDescriptor.parse_eq_ok_iff]
  exact and_iff_right h.text_callee

/-- The names that the descriptor has from the method itself have been read, which leaves that of
the interface. -/
theorem callee_isNamed_iff {f : Forwarder} {interfaceName : String} (h : f.parsed.IsNamed) :
    (f.callee interfaceName).IsNamed ↔ (FieldType.object interfaceName).IsNamed :=
  ⟨fun hcallee => hcallee.1 _ (List.mem_cons_self ..),
    fun hname => ⟨List.forall_mem_cons.2 ⟨hname, h.1⟩, h.2⟩⟩

/-- The forwarders that a class needs are for methods of interfaces. -/
theorem exists_isFor_of_mem_needed {s : Surroundings} {c : ClassFile}
    (hscope : SeesDescribed s.scope) {f : Forwarder} (hf : f ∈ needed s c) :
    ∃ interfaceName, f.IsFor interfaceName
      ∧ ((f.callee interfaceName).IsNamed ↔ (FieldType.object interfaceName).IsNamed) := by
  obtain ⟨htext, hnamed⟩ := MethodDescriptor.parse_eq_ok_iff.1 (parse_of_mem_needed hscope hf)
  obtain ⟨interfaceName, _, hf⟩ := List.mem_flatMap.1 (mem_of_mem_firstOfEach hf)
  obtain ⟨stub, _, m, _, _, _, _, _, _, rfl⟩ := mem_ofInterface.1 hf
  exact ⟨interfaceName, ⟨htext, rfl⟩, callee_isNamed_iff hnamed⟩

/-- The instructions of a forwarder: the receiver is loaded as if it were a parameter. -/
def instructions (f : Forwarder) (interfaceName : String) (index : UInt16) : List Instruction :=
  loadParams 0 (f.callee interfaceName).params
    ++ [.withWord Opcode.invokeStatic index, .returnOf f.parsed.result]

/-- The receiver is loaded by an instruction of its own, and the parameters behind it from slot one
on. -/
theorem instructions_eq (f : Forwarder) (interfaceName : String) (index : UInt16) :
    f.instructions interfaceName index = .op Opcode.aload0 :: loadParams 1 f.parsed.params
      ++ [.withWord Opcode.invokeStatic index, .returnOf f.parsed.result] :=
  rfl

/-- The whole body of a forwarder is straight code. -/
theorem isStraight_instructions (f : Forwarder) (interfaceName : String) (index : UInt16) :
    ∀ i ∈ f.instructions interfaceName index, i.IsStraight := by
  refine List.forall_mem_append.2 ⟨fun i hi => Instruction.isStraight_of_mem_loadParams hi, ?_⟩
  exact List.forall_mem_cons.2 ⟨Instruction.isStraight_withWord (by decide) index,
    List.forall_mem_singleton.2 (Instruction.isStraight_returnOf _)⟩

section Method

variable {f : Forwarder} {interfaceName : String} {pool pool' : ConstantPool} {m : Member}

/-- How a forwarder is made: its body is the instructions above, with the call at an index that
names the companion's method, and it declares the slots and the depth that they need. -/
theorem exists_hasBody_of_method (interfaceName : String) (hpool : Reachable pool)
    (hslots : f.parsed.paramSlots < 65534) (h : f.method pool = .ok m pool') :
    ∃ code index, m.HasBody pool' code (f.instructions interfaceName index)
      ∧ pool'.getMember index = .ok f.target
      ∧ (boundsOf code).slots = 1 + f.parsed.paramSlots
      ∧ (boundsOf code).depth = max (1 + f.parsed.paramSlots) f.parsed.result.width := by
  obtain ⟨index, mid, hindex, h⟩ := Interning.bind_eq_ok.1 h
  obtain ⟨bytecode, hbytecode, hset⟩ := Interning.lift_bind_eq_ok.1 h
  rw [← instructions_eq f interfaceName] at hbytecode
  have hmid := (appends_internMember f.target).reachable_of_ok hpool hindex
  have hgrown := (Member.appends_setCode _ _).grown_of_ok hset
  have hresult := f.parsed.result.width_le
  have hbody := Member.hasBody_of_setCode hmid.consistent.located hbytecode
    (isStraight_instructions f interfaceName index) (List.cons_ne_nil _ _) hset
  refine ⟨_, index, hbody, hgrown.getMember (internMember_spec hpool hindex), ?_, ?_⟩
  · exact UInt16.toNat_ofNat_of_lt' (show _ < 65536 by omega)
  · exact UInt16.toNat_ofNat_of_lt' (show _ < 65536 by omega)

/-- **A forwarder calls the companion** with its receiver and all parameters in order, and returns
what the call gives. Nothing else is on the stack at the call or at the return. -/
theorem callsAndReturns {V : Type} {created : String → V} {index : UInt16} {receiver : Operand V}
    {args : List (Operand V)} {result : Option (Operand V)} {locals : Nat → Cell V} {b : Bounds}
    (hindex : pool.getMember index = .ok f.target) (hbound : b.slots ≤ 65535)
    (hslots : b.slots = 1 + f.parsed.paramSlots)
    (hdepth : b.depth = max (1 + f.parsed.paramSlots) f.parsed.result.width)
    (hreceiver : receiver.family = referenceFamily) (hargs : AreOf f.parsed.params args)
    (hholds : Holds locals 0 (receiver :: args)) (hgives : Gives f.parsed.result result) :
    CallsAndReturns created pool b (f.instructions interfaceName index) locals Opcode.invokeStatic
      f.target (receiver :: args) [] result (Instruction.returnOf f.parsed.result).opcode
      result := by
  have hops : AreOf (f.callee interfaceName).params (receiver :: args) := .cons hreceiver hargs
  have htotal : depth (receiver :: args) = 1 + f.parsed.paramSlots := hops.depth_eq
  refine ⟨[.returnOf f.parsed.result], { stack := result.toList ++ [], locals }, ?_, ?_, ?_⟩
  · have hempty : depth ([] : List (Operand V)) = 0 := rfl
    unfold instructions
    rw [runToStop_loadParams hops hholds (by omega) hbound (by omega),
      runToStop_call (.inl rfl) hindex]
  · refine resume_eq ?_
    rw [List.append_nil, hgives.depth_eq, hdepth]
    exact Nat.le_max_right ..
  · exact runToStop_returnOf hgives [] locals []

end Method
end Forwarder

/-! ## Factories

A factory is static and takes what the constructor takes. The carrier that it makes lies twice on
the stack, once for the constructor and once to be returned. -/

section Factory

variable {conventions : Conventions} {c : ClassFile} {params : List FieldType}
  {pool pool' : ConstantPool} {plan : FactoryPlan}

/-- The constructor that a factory with the given parameters calls. -/
def constructorOf (className : String) (params : List FieldType) : MemberRef where
  kind := .method
  owner := className
  name := Typing.constructorName
  descriptor := "(" ++ FieldType.textOfAll params ++ ")V"

/-- The descriptor by which a factory calls the constructor is the printed one for its own
parameters and no result. -/
theorem text_constructorOf (className : String) (params : List FieldType) :
    (constructorOf className params).descriptor
      = MethodDescriptor.text { params, result := .void } := by
  apply String.toList_inj.1
  simp [constructorOf, FieldType.textOfAll, MethodDescriptor.text, MethodDescriptor.chars,
    ReturnType.chars]

/-- The instructions of a factory that makes a new carrier out of its parameters. -/
def freshInstructions (params : List FieldType) (classAt initAt : UInt16) : List Instruction :=
  [.withWord Opcode.newObject classAt, .op Opcode.dup] ++ loadParams 0 params
    ++ [.withWord Opcode.invokeSpecial initAt, .op Opcode.areturn]

/-- The whole body of a factory is straight code. -/
theorem isStraight_freshInstructions (params : List FieldType) (classAt initAt : UInt16) :
    ∀ i ∈ freshInstructions params classAt initAt, i.IsStraight := by
  refine List.forall_mem_append.2 ⟨List.forall_mem_append.2 ⟨?_, fun i hi =>
    Instruction.isStraight_of_mem_loadParams hi⟩, ?_⟩
  · exact List.forall_mem_cons.2 ⟨Instruction.isStraight_withWord (by decide) classAt,
      List.forall_mem_singleton.2 (Instruction.isStraight_op (by decide))⟩
  · exact List.forall_mem_cons.2 ⟨Instruction.isStraight_withWord (by decide) initAt,
      List.forall_mem_singleton.2 (Instruction.isStraight_op (by decide))⟩

/-- How a factory with captures is made: two entries of the pool, for the class and for its
constructor, the straight body, and limits of two operands more than the parameters take. -/
theorem exists_hasBody_of_of? (hpool : Reachable pool) (hwants : WantsFactory conventions c params)
    (hparams : params ≠ []) (hslots : FieldType.widthOfAll params < 65534)
    (h : FactoryPlan.of? conventions c pool = .ok (some plan) pool') :
    { plan.factory with attributes := [] } = newFactory conventions c.name params
      ∧ ∃ code classAt initAt,
        plan.factory.HasBody pool' code (freshInstructions params classAt initAt)
        ∧ pool'.getClassName classAt = .ok c.name
        ∧ pool'.getMember initAt = .ok (constructorOf c.name params)
        ∧ (boundsOf code).slots = FieldType.widthOfAll params
        ∧ (boundsOf code).depth = 2 + FieldType.widthOfAll params := by
  rw [hwants.of?_eq] at h
  unfold planFor at h
  rw [if_neg (by simpa using hparams)] at h
  unfold FactoryPlan.fresh? at h
  split at h
  · cases (Interning.pure_eq_ok.1 h).1
  -- The body is made in the pool `mid`, and only then set, in a pool that has grown by the name of
  -- the attribute.
  · obtain ⟨body, mid, hbody, h⟩ := Interning.bind_eq_ok.1 h
    obtain ⟨factory, last, hset, hend⟩ := Interning.bind_eq_ok.1 h
    obtain ⟨hplan, rfl⟩ := Interning.pure_eq_ok.1 hend
    cases hplan
    obtain ⟨classAt, first, hclass, hbody⟩ := Interning.bind_eq_ok.1 hbody
    obtain ⟨initAt, second, hinit, hbody⟩ := Interning.bind_eq_ok.1 hbody
    obtain ⟨bytecode, hbytecode, hbody⟩ := Interning.lift_bind_eq_ok.1 hbody
    obtain ⟨rfl, rfl⟩ := Interning.pure_eq_ok.1 hbody
    have hassembled : Instruction.assemble (freshInstructions params classAt initAt)
        = .ok bytecode := hbytecode
    have hfirst := (appends_internClass c.name).reachable_of_ok hpool hclass
    have hinitAppends := appends_internMember (constructorOf c.name params)
    have hsecond := hinitAppends.reachable_of_ok hfirst hinit
    have hgrown := (Member.appends_setCode _ _).grown_of_ok hset
    have hsame : { factory with attributes := [] } = newFactory conventions c.name params := by
      obtain ⟨info, _, rfl⟩ := Member.setCode_eq_ok hset
      rfl
    have hbody := Member.hasBody_of_setCode hsecond.consistent.located hassembled
      (isStraight_freshInstructions params classAt initAt) (List.cons_ne_nil _ _) hset
    refine ⟨hsame, _, classAt, initAt, hbody, ?_,
      hgrown.getMember (internMember_spec hfirst hinit), ?_, ?_⟩
    · have hlater := (hinitAppends.grown_of_ok hinit).trans hgrown
      exact hlater.getClassName (internClass_spec hpool hclass)
    · exact UInt16.toNat_ofNat_of_lt' (show _ < 65536 by omega)
    · exact UInt16.toNat_ofNat_of_lt' (show _ < 65536 by omega)

/-- **A factory with captures calls the constructor** of a new carrier with all parameters in
order, and returns that carrier. -/
theorem freshInstructions_callsAndReturns {V : Type} {created : String → V} {className : String}
    {classAt initAt : UInt16} {args : List (Operand V)} {locals : Nat → Cell V} {b : Bounds}
    (hclass : pool.getClassName classAt = .ok className)
    (hinit : pool.getMember initAt = .ok (constructorOf className params))
    (hbound : b.slots ≤ 65535) (hslots : b.slots = FieldType.widthOfAll params)
    (hdepth : b.depth = 2 + FieldType.widthOfAll params) (hargs : AreOf params args)
    (hholds : Holds locals 0 args) :
    CallsAndReturns created pool b (freshInstructions params classAt initAt) locals
      Opcode.invokeSpecial (constructorOf className params) (newOperand created className :: args)
      [newOperand created className] none Opcode.areturn (some (newOperand created className)) := by
  let carrier : Operand V := newOperand created className
  have htotal := hargs.depth_eq
  have hcarrier : carrier.width = 1 := rfl
  have htwice : depth [carrier, carrier] = 2 := rfl
  -- The two instructions before the loads leave the carrier on the stack twice.
  have hnew : push b carrier { stack := [], locals } = some { stack := [carrier], locals } :=
    push_eq (show 1 ≤ b.depth by omega)
  have hdup : duplicate b { stack := [carrier], locals }
      = some { stack := [carrier, carrier], locals } :=
    duplicate_eq hcarrier (by omega)
  refine ⟨[.op Opcode.areturn], { stack := [carrier], locals }, ?_, rfl, rfl⟩
  show runToStop created pool b (.withWord Opcode.newObject classAt :: .op Opcode.dup
    :: (loadParams 0 params ++ _)) _ = _
  -- Each step runs by its own equation, up to the call, where the run stops.
  rw [runToStop_new hclass, hnew, Option.bind_some, runToStop_dup, hdup, Option.bind_some,
    runToStop_loadParams hargs hholds (by omega) hbound (by omega),
    runToStop_call (.inr (.inl rfl)) hinit, List.reverse_cons, List.append_assoc]
  rfl

end Factory

/-! ## Both

Limits count slots in words, and a body for more slots than a word can tell declares too few; hence
the bound on the slots of the parameters. The name of the interface decides how the descriptor of
the call is read. -/

/-- **Synthesized bodies make their one call with all operands in order, and return.** A forwarder
hands its receiver and its parameters over to the method of the companion and returns what that
gives; the new factory of a carrier with captures hands its parameters over to the constructor of
a new carrier, and returns the carrier. Each decodes to the instructions that were assembled and
keeps to the slots and the depth that it declares. What is called takes just what it is handed over;
of a forwarder this is so exactly if the name of the interface can stand in a descriptor. -/
theorem synthesized_call_and_return {pool : ConstantPool} (hpool : Reachable pool) :
    (∀ (s : Surroundings) (c : ClassFile), SeesDescribed s.scope →
      ∀ f ∈ Forwarder.needed s c, ∃ interfaceName, f.IsFor interfaceName
        ∧ ((f.callee interfaceName).IsNamed ↔ (FieldType.object interfaceName).IsNamed))
    ∧ (∀ (f : Forwarder) (interfaceName : String) (m : Member) (pool' : ConstantPool),
      f.IsFor interfaceName → f.parsed.paramSlots < 65534 → f.method pool = .ok m pool' →
      ∃ code instructions, m.HasBody pool' code instructions
        ∧ m.descriptor = f.parsed.text ∧ m.isStatic = false
        ∧ (MethodDescriptor.parse f.companionDescriptor = .ok (f.callee interfaceName)
          ↔ (f.callee interfaceName).IsNamed)
        ∧ ∀ (V : Type) (created : String → V) (receiver : Operand V) (args : List (Operand V))
          (locals : Nat → Cell V) (result : Option (Operand V)),
          receiver.family = referenceFamily → AreOf f.parsed.params args →
          Holds locals 0 (receiver :: args) → Gives f.parsed.result result →
          TakenBy Opcode.invokeStatic f.target (f.callee interfaceName) (receiver :: args)
          ∧ ((f.callee interfaceName).IsNamed →
            Consumes Opcode.invokeStatic f.companion f.companionDescriptor (receiver :: args))
          ∧ CallsAndReturns created pool' (boundsOf code) instructions locals Opcode.invokeStatic
            f.target (receiver :: args) [] result (Instruction.returnOf f.parsed.result).opcode
            result)
    ∧ ∀ (conventions : Conventions) (c : ClassFile) (params : List FieldType) (plan : FactoryPlan)
      (pool' : ConstantPool), WantsFactory conventions c params → params ≠ [] →
      FieldType.widthOfAll params < 65534 →
      FactoryPlan.of? conventions c pool = .ok (some plan) pool' →
      ∃ code instructions, plan.factory.HasBody pool' code instructions
        ∧ plan.factory.descriptor
          = MethodDescriptor.text { params, result := .value (.object c.name) }
        ∧ plan.factory.isStatic = true
        ∧ MethodDescriptor.parse (constructorOf c.name params).descriptor
          = .ok { params, result := .void }
        ∧ ∀ (V : Type) (created : String → V) (args : List (Operand V)) (locals : Nat → Cell V),
          AreOf params args → Holds locals 0 args →
          TakenBy Opcode.invokeSpecial (constructorOf c.name params) { params, result := .void }
            (newOperand created c.name :: args)
          ∧ Consumes Opcode.invokeSpecial c.name (constructorOf c.name params).descriptor
            (newOperand created c.name :: args)
          ∧ CallsAndReturns created pool' (boundsOf code) instructions locals Opcode.invokeSpecial
            (constructorOf c.name params) (newOperand created c.name :: args)
            [newOperand created c.name] none Opcode.areturn (some (newOperand created c.name)) := by
  refine ⟨fun s c hscope f hf => Forwarder.exists_isFor_of_mem_needed hscope hf, ?_, ?_⟩
  · intro f interfaceName m pool' hfor hslots h
    obtain ⟨info, hm⟩ := f.eq_of_method h
    obtain ⟨code, index, hbody, hindex, hcodeSlots, hcodeDepth⟩ :=
      Forwarder.exists_hasBody_of_method interfaceName hpool hslots h
    refine ⟨code, _, hbody, ?_, ?_, hfor.parse_iff, ?_⟩
    · rw [hm]
      exact hfor.descriptor
    · rw [hm]
      show Access.has Access.publicFlag Access.staticFlag = false
      decide
    · intro V created receiver args locals result hreceiver hargs hholds hgives
      have htakes : AreOf (f.callee interfaceName).params (receiver :: args) :=
        .cons hreceiver hargs
      refine ⟨⟨hfor.text_callee, htakes⟩, fun hnamed => ⟨_, hfor.parse_iff.2 hnamed, htakes⟩, ?_⟩
      exact Forwarder.callsAndReturns hindex (by omega) hcodeSlots hcodeDepth hreceiver hargs hholds
        hgives
  · intro conventions c params plan pool' hwants hparams hslots h
    obtain ⟨hfactory, code, classAt, initAt, hbody, hclass, hinit, hcodeSlots, hcodeDepth⟩ :=
      exists_hasBody_of_of? hpool hwants hparams hslots h
    -- The descriptor of the constructor is one that was read with the class, so no name in it can
    -- fail.
    have hread : MethodDescriptor.parse (constructorOf c.name params).descriptor
        = .ok { params, result := .void } := by
      obtain ⟨old, d, _, hd, rfl⟩ := hwants.factory
      have hnamed := MethodDescriptor.isNamed_of_parse hd
      rw [text_constructorOf]
      exact MethodDescriptor.parse_text ⟨hnamed, nofun⟩
    refine ⟨code, _, hbody, ?_, ?_, hread, ?_⟩
    · exact (congrArg Member.descriptor hfactory).trans (text_newFactory params c.name)
    · have haccess : plan.factory.access = Access.publicFlag ||| Access.staticFlag :=
        congrArg Member.access hfactory
      unfold Member.isStatic
      rw [haccess]
      decide
    · intro V created args locals hargs hholds
      have htakes : AreOf (CallPlan.takes Opcode.invokeSpecial c.name { params, result := .void })
          (newOperand created c.name :: args) :=
        .cons rfl hargs
      refine ⟨⟨text_constructorOf c.name params, htakes⟩, ⟨_, hread, htakes⟩, ?_⟩
      exact freshInstructions_callsAndReturns hclass hinit (by omega) hcodeSlots hcodeDepth hargs
        hholds

/-- The conventions of the classes below: companions have a dollar sign behind their name. -/
def dollared : Conventions where
  polyfillNamespace := "r"
  mixinMarker := "Mixin"
  companionSuffix := "$"
  lambdaClass := .empty
  lambdaFactory := "get"
  replacementFactory := "make"
  replacementPrefix := "_"
  lambdaInstanceField := "it"
  localVariableType := "O"

/-- A forwarder and a factory for parameters of one slot and of two. With two slots the order of the
loads and the slots they come from are not the same numbers. -/
theorem synthesized_call_and_return_wide :
    let params : List FieldType := [.base .long, .object "A", .base .double]
    let f : Forwarder :=
      { name := "m", descriptor := "(JLA;D)I", parsed := { params, result := .value (.base .int) },
        companion := "I$", companionDescriptor := "(LI;JLA;D)I" }
    let c : ClassFile :=
      { access := 1, name := "X", superName := none, methods := [
          { access := Access.staticFlag, name := "get", descriptor := "(JLA;D)LI;" },
          { access := 0, name := "<init>", descriptor := "(JLA;D)V" }] }
    let receiver : Operand Nat := { family := 4, value := 0 }
    let args : List (Operand Nat) :=
      [{ family := 1, value := 1 }, { family := 4, value := 2 }, { family := 3, value := 3 }]
    let result : Operand Nat := { family := 0, value := 4 }
    let carrier : Operand Nat := newOperand (fun _ => 5) "X"
    (∃ m pool code instructions, f.method empty = .ok m pool ∧ m.HasBody pool code instructions
      ∧ CallsAndReturns (fun _ => 5) pool (boundsOf code) instructions
        (writeAll 0 (receiver :: args) fun _ => .unused) Opcode.invokeStatic f.target
        (receiver :: args) [] (some result) Opcode.ireturn (some result))
    ∧ ∃ plan pool code instructions, FactoryPlan.of? dollared c empty = .ok (some plan) pool
      ∧ plan.factory.HasBody pool code instructions
      ∧ CallsAndReturns (fun _ => 5) pool (boundsOf code) instructions
        (writeAll 0 args fun _ => .unused) Opcode.invokeSpecial (constructorOf "X" params)
        (carrier :: args) [carrier] none Opcode.areturn (some carrier) := by
  intro params f c receiver args result carrier
  obtain ⟨_, hforwarder, hfactory⟩ := synthesized_call_and_return .empty
  -- Wide and narrow arguments, so that slots and positions differ.
  have hargs : AreOf params args := .cons rfl (.cons rfl (.cons rfl .nil))
  constructor
  · have hfor : f.IsFor "I" := ⟨by decide +kernel, by decide +kernel⟩
    obtain ⟨⟨m, pool⟩, hon⟩ : ∃ made, f.method.on empty = .ok made := by decide +kernel
    have hm := Interning.on_eq_ok.1 hon
    obtain ⟨code, instructions, hbody, _, _, _, hruns⟩ :=
      hforwarder f "I" m pool hfor (by decide) hm
    obtain ⟨_, _, hcalls⟩ := hruns Nat (fun _ => 5) receiver args _ (some result) rfl hargs
      (holds_writeAll 0 (receiver :: args) fun _ => .unused) ⟨result, rfl, rfl⟩
    exact ⟨m, pool, code, instructions, hm, hbody, hcalls⟩
  · have hwants : WantsFactory dollared c params :=
      ⟨by decide, _, { params, result := .value (.object "I") }, rfl, by decide +kernel, rfl⟩
    have hplanned : (((FactoryPlan.of? dollared c).on empty).toOption
        >>= Prod.fst).isSome = true := by
      decide +kernel
    obtain ⟨plan, hplan⟩ := Option.isSome_iff_exists.1 hplanned
    obtain ⟨⟨planned, pool⟩, hon, rfl⟩ := toOption_bind_eq_some.1 hplan
    have hof := Interning.on_eq_ok.1 hon
    obtain ⟨code, instructions, hbody, _, _, _, hruns⟩ :=
      hfactory dollared c params plan pool hwants (by decide) (by decide) hof
    obtain ⟨_, _, hcalls⟩ := hruns Nat (fun _ => 5) args _ hargs
      (holds_writeAll 0 args fun _ => .unused)
    exact ⟨plan, pool, code, instructions, hof, hbody, hcalls⟩

/-- **An interface name with a semicolon** makes two parameters of the receiver. The companion of
`A;LI` has a method that takes an `A` and an `I`, and the forwarder for `m` is made to call it; what
it has on the stack for the call is its receiver. -/
theorem forwarder_of_semicolon :
    let stub : ClassStub :=
      { name := "A;LI", access := Access.interfaceFlag, superName := none, interfaces := []
        annotations := [], fields := []
        methods := [
          { access := Access.abstractFlag, name := "m", descriptor := "()V"
            parsed := { params := [], result := .void } }] }
    let companion : ClassStub :=
      { name := "A;LI$", access := 0, superName := none, interfaces := []
        annotations := [], fields := []
        methods := [
          { access := Access.staticFlag, name := "m", descriptor := "(LA;LI;)V"
            parsed := { params := [.object "A", .object "I"], result := .void } }] }
    let c : ClassFile := { access := 0, name := "X", superName := none, interfaces := ["A;LI"] }
    let s : Surroundings :=
      { scope := .ofBatch [c] (ClassIndex.empty.insertAll [stub, companion])
        conventions := dollared }
    let f : Forwarder :=
      { name := "m", descriptor := "()V", parsed := { params := [], result := .void }
        companion := "A;LI$", companionDescriptor := "(LA;LI;)V" }
    let receiver : Operand Nat := { family := referenceFamily, value := 0 }
    Forwarder.needed s c = [f]
      ∧ (∃ m pool code index, f.method empty = .ok m pool
        ∧ m.HasBody pool code (f.instructions "A;LI" index)
        ∧ CallsAndReturns (fun _ => 0) pool (boundsOf code) (f.instructions "A;LI" index)
          (writeAll 0 [receiver] fun _ => .unused) Opcode.invokeStatic f.target [receiver] [] none
          Opcode.vreturn none)
      ∧ ¬ Consumes Opcode.invokeStatic f.companion f.companionDescriptor [receiver] := by
  intro stub companion c s f receiver
  have hread : MethodDescriptor.parse f.companionDescriptor
      = .ok { params := [.object "A", .object "I"], result := .void } := by
    decide +kernel
  refine ⟨by decide +kernel, ?_, ?_⟩
  · obtain ⟨⟨m, pool⟩, hon⟩ : ∃ made, f.method.on empty = .ok made := by decide +kernel
    have hm := Interning.on_eq_ok.1 hon
    obtain ⟨code, index, hbody, hindex, hslots, hdepth⟩ :=
      Forwarder.exists_hasBody_of_method "A;LI" .empty (by decide) hm
    have hone : (boundsOf code).slots = 1 := hslots
    have hholds := holds_writeAll 0 [receiver] fun _ => .unused
    exact ⟨m, pool, code, index, hm, hbody,
      Forwarder.callsAndReturns hindex (by omega) hslots hdepth rfl .nil hholds rfl⟩
  · rintro ⟨callee, hcallee, hops⟩
    rw [hread] at hcallee
    cases hcallee
    -- There are two types, and one operand.
    exact absurd hops.length_eq (by decide)

end Weave
end ClassLoom
