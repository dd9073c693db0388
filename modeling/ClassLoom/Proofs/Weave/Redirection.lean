import ClassLoom.Proofs.Weave.CallPlan

/-!
# Which calls are redirected

The rules by which calls go to polyfills, apart from the scan that applies them: where a call
goes (`GoesTo`), which `new` belongs to a constructor call (`waitingBehind`, `Constructs`), and
what a mixin lacks (`lacking?`). The scan makes a site for an instruction with a rule and for no
other.

* `follows_of_ofCall`: the plan for a call is the one that its rule gives;
* `visited_of_visit`: what the scan does at one instruction.
-/

namespace ClassLoom

open CallPlan (declaring isFactoryCall factoryDescriptor mixinDescriptor)

namespace Redirection

/-! ## Instructions that name classes and methods

Redirecting looks at three kinds of instructions: those that make an object, those that construct
one, and calls. What they name is read from the pool. -/

/-- The method that an instruction names. -/
def callee? (pool : ConstantPool) (i : Instruction) : Option MemberRef :=
  i.word?.bind fun index => (pool.getMember index).toOption

/-- What an instruction names it names by an index. Both the index and the entry have to be
there. -/
theorem exists_word_of_callee? {pool : ConstantPool} {i : Instruction} {target : MemberRef}
    (h : callee? pool i = some target) :
    ∃ index, i.word? = some index ∧ pool.getMember index = .ok target := by
  obtain ⟨index, hindex, h⟩ := Option.bind_eq_some_iff.1 h
  refine ⟨index, hindex, ?_⟩
  cases hmember : pool.getMember index with
  | error e =>
    rw [hmember] at h
    cases h
  | ok found =>
    rw [hmember] at h
    cases h
    rfl

/-- The class that a `new` makes an object of. -/
def made? (pool : ConstantPool) (i : Instruction) : Option String :=
  if i.opcode = Opcode.newObject then
    i.word?.bind fun index => (pool.getClassName index).toOption
  else none

/-- The constructor that an instruction calls. -/
def constructor? (pool : ConstantPool) (i : Instruction) : Option MemberRef :=
  if i.opcode = Opcode.invokeSpecial then
    (callee? pool i).filter fun target => target.name = Typing.constructorName
  else none

/-- Whether an opcode is one of a static, virtual or interface call. -/
def isCall (opcode : UInt8) : Bool :=
  opcode = Opcode.invokeStatic || opcode = Opcode.invokeVirtual || opcode = Opcode.invokeInterface

/-! ## The rules for calls

A call goes to the factory of a lambda carrier, or else to the polyfill of the class that declares
the method, which is a mixin or a replacement. Where it goes is told by `GoesTo`, in terms of what
can be seen and without any plan. -/

/-- Whether the class `owner` itself declares a static method. -/
def declaresStatic (s : Surroundings) (owner name descriptor : String) : Bool :=
  (((s.scope.lookup owner).bind (·.method? name descriptor)).map (·.isStatic)).getD false

/-- Whether a static method is found in the class `owner` or a superclass. -/
def findsStatic (s : Surroundings) (owner name descriptor : String) : Bool :=
  ((s.scope.findMethod owner name descriptor).map fun (_, m) => m.isStatic).getD false

/-- The call of a lambda carrier's replacement factory in the place of a call of `target`. -/
def factoryCallee (s : Surroundings) (target : MemberRef) (d : MethodDescriptor) : Invocation where
  opcode := Opcode.invokeStatic
  owner := target.owner
  name := s.conventions.replacementFactory
  descriptor := (factoryDescriptor target.owner d).text
  ofInterface := false

/-- The call of a mixin's method in the place of a call of `target`. -/
def mixinCallee (s : Surroundings) (opcode : UInt8) (target : MemberRef) (polyfill : Polyfill)
    (d : MethodDescriptor) : Invocation where
  opcode := Opcode.invokeStatic
  owner := polyfill.name
  name := target.name
  descriptor := (mixinDescriptor s (opcode = Opcode.invokeStatic) (declaring s target) d).text
  ofInterface := polyfill.isInterface

/-- The call of a replacement's method in the place of a call of `target`. A static method of an
interface is called on the companion of the replacement, if there is one. -/
def replacementCallee (s : Surroundings) (opcode : UInt8) (target : MemberRef)
    (polyfill : Polyfill) (d : MethodDescriptor) : Invocation :=
  let companion := s.conventions.companionName polyfill.name
  let toCompanion := opcode = Opcode.invokeStatic
    && polyfill.isInterface && (s.scope.lookup companion).isSome
  { opcode :=
      if opcode = Opcode.invokeStatic then Opcode.invokeStatic
      else if polyfill.isInterface then Opcode.invokeInterface else Opcode.invokeVirtual
    owner := if toCompanion then companion else polyfill.name
    name := target.name
    descriptor := (s.substituteAll d).text
    ofInterface := !toCompanion && polyfill.isInterface }

/-- Where a static, virtual or interface call of `target` goes: to the replacement factory that
a lambda carrier declares, or to the polyfill of the class that declares the method. A call
without a rule stays. -/
inductive GoesTo (s : Surroundings) (opcode : UInt8) (target : MemberRef) : Invocation → Prop where
  | factory (d : MethodDescriptor) (hd : MethodDescriptor.parse target.descriptor = .ok d)
    (hfactory : isFactoryCall s opcode target = true)
    (hdeclared : declaresStatic s target.owner s.conventions.replacementFactory
      (factoryCallee s target d).descriptor = true) :
    GoesTo s opcode target (factoryCallee s target d)
  | mixin (d : MethodDescriptor) (hd : MethodDescriptor.parse target.descriptor = .ok d)
    (polyfill : Polyfill) (hfactory : isFactoryCall s opcode target = false)
    (hpolyfill : s.polyfill? (declaring s target) = some polyfill) (hkind : polyfill.kind = .mixin)
    (hfound : findsStatic s polyfill.name target.name
      (mixinCallee s opcode target polyfill d).descriptor = true) :
    GoesTo s opcode target (mixinCallee s opcode target polyfill d)
  | replacement (d : MethodDescriptor) (hd : MethodDescriptor.parse target.descriptor = .ok d)
    (polyfill : Polyfill) (hfactory : isFactoryCall s opcode target = false)
    (hpolyfill : s.polyfill? (declaring s target) = some polyfill)
    (hkind : polyfill.kind = .replacement) :
    GoesTo s opcode target (replacementCallee s opcode target polyfill d)

/-- What a mixin lacks for a call of `target` to go to it, if it lacks something. -/
def lacking? (s : Surroundings) (opcode : UInt8) (target : MemberRef) : Option Finding :=
  match isFactoryCall s opcode target, s.polyfill? (declaring s target),
    MethodDescriptor.parse target.descriptor with
  | false, some polyfill, .ok d =>
    let callee := mixinCallee s opcode target polyfill d
    if polyfill.kind = .mixin
        ∧ findsStatic s polyfill.name target.name callee.descriptor = false then
      some (.unresolvedMixinMethod polyfill.name target.name callee.descriptor)
    else none
  | _, _, _ => none

section Plans

variable {s : Surroundings} {pc : Nat} {opcode : UInt8} {target : MemberRef} {plan : CallPlan}
  {d : MethodDescriptor}

/-- A call of an old factory goes to the new one where the carrier declares that. -/
theorem ofFactory_eq : CallPlan.ofFactory s pc target d
    = if declaresStatic s target.owner s.conventions.replacementFactory
        (factoryCallee s target d).descriptor = true then
      .redirect { pc, receiverCast := none, args := d.params.map (·, none)
                  call := factoryCallee s target d }
    else .keep := by
  unfold CallPlan.ofFactory
  simp only [CallPlan.text_factoryDescriptor]
  rfl

/-- A call goes to a mixin where the mixin has the method, with the receiver as its first parameter;
otherwise that is reported. -/
theorem ofMixin_eq {polyfill : Polyfill} :
    CallPlan.ofMixin s pc (opcode = Opcode.invokeStatic) target (declaring s target) polyfill d
      = if findsStatic s polyfill.name target.name
          (mixinCallee s opcode target polyfill d).descriptor = true then
        CallPlan.withCasts s pc d
          (if (opcode = Opcode.invokeStatic : Bool) then none else some (declaring s target))
          (mixinCallee s opcode target polyfill d)
      else .unresolved polyfill.name target.name
        (mixinCallee s opcode target polyfill d).descriptor := by
  unfold CallPlan.ofMixin
  simp only [CallPlan.text_mixinDescriptor]
  rfl

/-- What a plan makes of a call: where it is redirected to, or that no rule redirects it, and
what a mixin lacks for it. -/
inductive Follows (s : Surroundings) (opcode : UInt8) (target : MemberRef) : CallPlan → Prop where
  | redirect (site : CallSite) (h : GoesTo s opcode target site.call)
    (hlacks : lacking? s opcode target = none) : Follows s opcode target (.redirect site)
  | keep (h : ∀ callee, ¬ GoesTo s opcode target callee)
    (hlacks : lacking? s opcode target = none) : Follows s opcode target .keep
  | unresolved (polyfill name descriptor : String) (h : ∀ callee, ¬ GoesTo s opcode target callee)
    (hlacks : lacking? s opcode target
      = some (.unresolvedMixinMethod polyfill name descriptor)) :
    Follows s opcode target (.unresolved polyfill name descriptor)

/-- **A planned call goes where its rule says**, and a call that is kept has no rule. What a
mixin lacks is reported for the calls that would need it. -/
theorem follows_of_ofCall (h : CallPlan.ofCall s pc opcode target = .ok plan) :
    Follows s opcode target plan := by
  obtain ⟨d, hd, hplan⟩ := CallPlan.ofCall_cases h
  have hparse {d' : MethodDescriptor} (hd' : MethodDescriptor.parse target.descriptor = .ok d') :
      d' = d := by
    rw [hd] at hd'
    exact (Except.ok.inj hd').symm
  -- Every rule but its own is ruled out by one of the three questions that a plan asks: whether
  -- the call is one of a factory, which polyfill it goes to, and of which kind that one is.
  cases hplan with
  | toFactory hfactory =>
    have hlacks : lacking? s opcode target = none := by simp only [lacking?, hfactory]
    rw [ofFactory_eq]
    split
    · next hdeclared => exact .redirect _ (.factory d hd hfactory hdeclared) hlacks
    · next hdeclared =>
      refine .keep (fun callee hgoes => ?_) hlacks
      cases hgoes with
      | factory d' hd' _ hother =>
        rw [hparse hd'] at hother
        exact hdeclared hother
      | mixin _ _ _ hother => simp [hfactory] at hother
      | replacement _ _ _ hother => simp [hfactory] at hother
  | kept hfactory hpolyfill =>
    refine .keep (fun callee hgoes => ?_) (by simp only [lacking?, hfactory, hpolyfill])
    cases hgoes with
    | factory _ _ hother => simp [hfactory] at hother
    | mixin _ _ _ _ hother => simp [hpolyfill] at hother
    | replacement _ _ _ _ hother => simp [hpolyfill] at hother
  | toMixin polyfill hfactory hpolyfill hkind =>
    rw [ofMixin_eq]
    split
    · next hfound =>
      exact .redirect _ (.mixin d hd polyfill hfactory hpolyfill hkind hfound)
        (by simp [lacking?, hfactory, hpolyfill, hd, hfound])
    · next hfound =>
      refine .unresolved _ _ _ (fun callee hgoes => ?_)
        (by simp [lacking?, hfactory, hpolyfill, hd, hkind, hfound])
      cases hgoes with
      | factory _ _ hother => simp [hfactory] at hother
      | mixin d' hd' polyfill' _ hpolyfill' _ hother =>
        rw [hpolyfill] at hpolyfill'
        cases hpolyfill'
        rw [hparse hd'] at hother
        exact hfound hother
      | replacement _ _ polyfill' _ hpolyfill' hkind' =>
        rw [hpolyfill] at hpolyfill'
        cases hpolyfill'
        rw [hkind] at hkind'
        cases hkind'
  | toStatic polyfill hfactory hpolyfill hkind hopcode =>
    refine .redirect _ ?_ (by simp [lacking?, hfactory, hpolyfill, hd, hkind])
    have hgoes := GoesTo.replacement d hd polyfill hfactory hpolyfill hkind
    simpa [replacementCallee, hopcode] using hgoes
  | toInstance polyfill hpolyfill hkind hopcode =>
    have hfactory : isFactoryCall s opcode target = false := by simp [isFactoryCall, hopcode]
    refine .redirect _ ?_ (by simp [lacking?, hfactory, hpolyfill, hd, hkind])
    have hgoes := GoesTo.replacement d hd polyfill hfactory hpolyfill hkind
    simpa [replacementCallee, hopcode] using hgoes

/-- Only constructor calls have a `new`. The other rules do not look at what waits. -/
theorem newSite_of_ofCall {site : CallSite}
    (h : CallPlan.ofCall s pc opcode target = .ok (.redirect site)) : site.newSite = none := by
  obtain ⟨d, _, hplan⟩ := CallPlan.ofCall_cases h
  generalize hsite : CallPlan.redirect site = plan at hplan
  cases hplan with
  | toFactory => rw [CallPlan.ofFactory_eq_redirect hsite.symm]
  | kept => cases hsite
  | toMixin => rw [CallPlan.ofMixin_eq_redirect hsite.symm]
  | toStatic =>
    cases hsite
    rfl
  | toInstance =>
    cases hsite
    rfl

/-- A call goes to one place. Each rule excludes those before it, and within a rule all is read from
the call. -/
theorem GoesTo.unique {callee callee' : Invocation} (h : GoesTo s opcode target callee)
    (h' : GoesTo s opcode target callee') : callee = callee' := by
  cases h with
  -- What the factory rule asks for is excluded by the other two.
  | factory d hd hfactory =>
    cases h' with
    | factory d' hd' =>
      rw [hd] at hd'
      cases hd'
      rfl
    | mixin _ _ _ hother => simp [hfactory] at hother
    | replacement _ _ _ hother => simp [hfactory] at hother
  | mixin d hd polyfill hfactory hpolyfill hkind =>
    cases h' with
    | factory _ _ hother => simp [hfactory] at hother
    | mixin d' hd' polyfill' _ hpolyfill' =>
      rw [hd] at hd'
      rw [hpolyfill] at hpolyfill'
      cases hd'
      cases hpolyfill'
      rfl
    | replacement _ _ polyfill' _ hpolyfill' hkind' =>
      rw [hpolyfill] at hpolyfill'
      cases hpolyfill'
      rw [hkind] at hkind'
      cases hkind'
  | replacement d hd polyfill hfactory hpolyfill hkind =>
    cases h' with
    | factory _ _ hother => simp [hfactory] at hother
    | mixin _ _ polyfill' _ hpolyfill' hkind' =>
      rw [hpolyfill] at hpolyfill'
      cases hpolyfill'
      rw [hkind] at hkind'
      cases hkind'
    | replacement d' hd' polyfill' _ hpolyfill' =>
      rw [hd] at hd'
      rw [hpolyfill] at hpolyfill'
      cases hd'
      cases hpolyfill'
      rfl

end Plans

/-! ## The rule for constructor calls

A constructor call is redirected together with the `new` of its object. The two are matched by a
stack of those that wait, so the rule needs to know what waits in front of the call. -/

/-- The `new` instructions that wait for their constructor calls behind an instruction, latest
first, with their classes. -/
def waitOn (pool : ConstantPool) (waiting : List (Nat × String)) (e : Nat × Instruction) :
    List (Nat × String) :=
  match made? pool e.2, constructor? pool e.2, waiting with
  | some name, _, _ => (e.1, name) :: waiting
  | none, some target, (_, name) :: rest => if name = target.owner then rest else waiting
  | none, _, _ => waiting

/-- The `new` instructions that wait behind the first instructions of a body. -/
def waitingBehind (pool : ConstantPool) (front : List (Nat × Instruction)) : List (Nat × String) :=
  front.foldl (waitOn pool) []

/-- The call of a replacement's constructor in the place of a call of `target`. -/
def constructorCallee (s : Surroundings) (polyfill : Polyfill) (d : MethodDescriptor) :
    Invocation where
  opcode := Opcode.invokeSpecial
  owner := polyfill.name
  name := Typing.constructorName
  descriptor := (s.substituteAll d).text
  ofInterface := false

/-- Whether an instruction constructs an object for a replacement: it is the constructor call of
the latest `new` that waits, at `newPc`. -/
inductive Constructs (s : Surroundings) (pool : ConstantPool) (waiting : List (Nat × String))
    (i : Instruction) (newPc : Nat) : String → Invocation → Prop where
  | intro (target : MemberRef) (rest : List (Nat × String)) (polyfill : Polyfill)
    (d : MethodDescriptor) (htarget : constructor? pool i = some target)
    (hwaiting : waiting = (newPc, target.owner) :: rest)
    (hpolyfill : s.polyfill? target.owner = some polyfill) (hkind : polyfill.kind = .replacement)
    (hd : MethodDescriptor.parse target.descriptor = .ok d) :
    Constructs s pool waiting i newPc polyfill.name (constructorCallee s polyfill d)

/-! ## One instruction

A visit of an instruction does three things: it changes what waits, it may plan a site, and it may
report what a mixin lacks. `Visited` says which by the rules. -/

/-- Whether a site is the one for an instruction with a rule, in a scan with the given `new`
instructions waiting. -/
inductive SiteAt (s : Surroundings) (pool : ConstantPool) (waiting : List (Nat × String))
    (e : Nat × Instruction) (site : CallSite) : Prop where
  | call (target : MemberRef) (hpc : site.pc = e.1) (hcall : isCall e.2.opcode = true)
    (htarget : callee? pool e.2 = some target) (h : GoesTo s e.2.opcode target site.call)
    (hnew : site.newSite = none)
  | constructor (newPc : Nat) (name : String) (hpc : site.pc = e.1)
    (h : Constructs s pool waiting e.2 newPc name site.call)
    (hnew : site.newSite = some (newPc, name))

/-- Whether no rule is one for a call at an instruction. -/
structure NoSiteAt (s : Surroundings) (pool : ConstantPool) (waiting : List (Nat × String))
    (e : Nat × Instruction) : Prop where
  call : ∀ target callee, isCall e.2.opcode = true → callee? pool e.2 = some target →
    ¬ GoesTo s e.2.opcode target callee
  constructor : ∀ newPc name callee, ¬ Constructs s pool waiting e.2 newPc name callee

/-- What a mixin lacks for the call at an instruction. -/
def missing? (s : Surroundings) (pool : ConstantPool) (i : Instruction) : Option Finding :=
  if isCall i.opcode then (callee? pool i).bind (lacking? s i.opcode) else none

/-- Whether the method that a call names can be read, if the instruction is one. -/
def Readable (pool : ConstantPool) (i : Instruction) : Prop :=
  isCall i.opcode = true → ∀ index, i.word? = some index →
    ∃ target d, pool.getMember index = .ok target ∧ MethodDescriptor.parse target.descriptor = .ok d

/-- The diagnostic for an instruction of a body, with the offset that it has there. -/
def diagnostic? (s : Surroundings) (pool : ConstantPool) (location : Location) (code : Code)
    (e : Nat × Instruction) : Option Diagnostic :=
  (missing? s pool e.2).map fun finding =>
    { location := location.atInstruction e.1 (code.lineAt? e.1), finding }

section Visit

variable {s : Surroundings} {pool : ConstantPool} {location : Location} {code : Code}
  {p next : Planning} {e : Nat × Instruction}

/-- What a visit of an instruction does to the planning of a body. -/
structure Visited (s : Surroundings) (pool : ConstantPool) (location : Location) (code : Code)
    (e : Nat × Instruction) (p next : Planning) : Prop where
  waiting : next.waiting = waitOn pool p.waiting e
  sites : (∃ site, SiteAt s pool p.waiting e site ∧ next.sites = site :: p.sites)
    ∨ NoSiteAt s pool p.waiting e ∧ next.sites = p.sites
  diagnostics : next.diagnostics = (diagnostic? s pool location code e).toList ++ p.diagnostics
  readable : Readable pool e.2

/-- Of an instruction that is no call there is nothing to be read. -/
theorem readable_of_not_isCall (pool : ConstantPool) {i : Instruction}
    (h : isCall i.opcode = false) : Readable pool i := by
  intro hcall
  rw [h] at hcall
  cases hcall

/-- Nothing happens at an instruction that neither makes nor calls something. So neither what is
planned nor what waits changes. -/
theorem visited_of_none (hmade : made? pool e.2 = none)
    (hconstructor : constructor? pool e.2 = none)
    (hcall : isCall e.2.opcode = true → e.2.word? = none) :
    Visited s pool location code e p p := by
  have hcallee (hop : isCall e.2.opcode = true) : callee? pool e.2 = none := by
    rw [callee?, hcall hop, Option.bind_none]
  refine ⟨?_, .inr ⟨⟨fun target callee hop htarget => ?_, fun newPc name callee h => ?_⟩, rfl⟩, ?_,
    fun hop index hindex => ?_⟩
  · simp only [waitOn, hmade, hconstructor]
  · rw [hcallee hop] at htarget
    cases htarget
  · cases h with
    | intro _ _ _ _ htarget =>
      rw [hconstructor] at htarget
      cases htarget
  · unfold diagnostic? missing?
    split
    · next hop =>
      rw [hcallee hop]
      rfl
    · rfl
  · rw [hcall hop] at hindex
    cases hindex

theorem made?_of_ne {i : Instruction} (h : i.opcode ≠ Opcode.newObject) : made? pool i = none :=
  if_neg h

theorem constructor?_of_ne {i : Instruction} (h : i.opcode ≠ Opcode.invokeSpecial) :
    constructor? pool i = none :=
  if_neg h

/-- What makes an object is a `new`. -/
theorem opcode_of_made? {i : Instruction} {owner : String} (h : made? pool i = some owner) :
    i.opcode = Opcode.newObject := by
  by_contra hop
  rw [made?_of_ne hop] at h
  cases h

/-- What constructs one is an `invokespecial`. -/
theorem opcode_of_constructor? {i : Instruction} (h : (constructor? pool i).isSome) :
    i.opcode = Opcode.invokeSpecial := by
  by_contra hop
  rw [constructor?_of_ne hop] at h
  cases h

/-- Neither is one of the other calls, so that the three kinds do not overlap. -/
theorem isCall_eq_false {op : UInt8} (h : op = Opcode.newObject ∨ op = Opcode.invokeSpecial) :
    isCall op = false := by
  rcases h with rfl | rfl <;> rfl

/-- What constructs an object is none of the other calls. -/
theorem Constructs.not_isCall {waiting : List (Nat × String)} {i : Instruction} {newPc : Nat}
    {name : String} {callee : Invocation} (h : Constructs s pool waiting i newPc name callee) :
    ¬ isCall i.opcode = true := by
  cases h with
  | intro _ _ _ _ htarget =>
    have hop := opcode_of_constructor? (by rw [htarget]; rfl)
    rw [isCall_eq_false (.inr hop)]
    exact Bool.false_ne_true

/-- A visit of a `new` lets it wait. Whether it is rewritten will be known with its constructor
call. -/
theorem visited_new {name : String} (hop : e.2.opcode = Opcode.newObject)
    (hmade : made? pool e.2 = some name) :
    Visited s pool location code e p { p with waiting := (e.1, name) :: p.waiting } := by
  have hconstructor : constructor? pool e.2 = none :=
    constructor?_of_ne (by rw [hop]; decide)
  have hcall := isCall_eq_false (.inl hop)
  refine ⟨?_, .inr ⟨⟨fun _ _ hother => ?_, fun newPc name callee h => ?_⟩, rfl⟩, ?_,
    readable_of_not_isCall pool hcall⟩
  · simp only [waitOn, hmade]
  · rw [hcall] at hother
    cases hother
  · cases h with
    | intro _ _ _ _ htarget =>
      rw [hconstructor] at htarget
      cases htarget
  · unfold diagnostic? missing?
    rw [hcall]
    rfl

/-- What a plan says about an instruction. -/
inductive PlanAt (s : Surroundings) (pool : ConstantPool) (waiting : List (Nat × String))
    (e : Nat × Instruction) : CallPlan → Prop where
  | redirect (site : CallSite) (h : SiteAt s pool waiting e site)
    (hmissing : missing? s pool e.2 = none) : PlanAt s pool waiting e (.redirect site)
  | keep (h : NoSiteAt s pool waiting e) (hmissing : missing? s pool e.2 = none) :
    PlanAt s pool waiting e .keep
  | unresolved (polyfill name descriptor : String) (h : NoSiteAt s pool waiting e)
    (hmissing : missing? s pool e.2 = some (.unresolvedMixinMethod polyfill name descriptor)) :
    PlanAt s pool waiting e (.unresolved polyfill name descriptor)

/-- A visit that adds a plan to what was planned, for an instruction that the plan is about. The
plan may be to keep the call. -/
theorem visited_add {plan : CallPlan} {waiting : List (Nat × String)}
    (hwaiting : waiting = waitOn pool p.waiting e) (h : PlanAt s pool p.waiting e plan)
    (hreadable : Readable pool e.2) :
    Visited s pool location code e p
      (Planning.add { p with waiting } location (code.lineAt? e.1) e.1 plan) := by
  cases h with
  | redirect site hsite hmissing =>
    exact ⟨hwaiting, .inl ⟨site, hsite, rfl⟩, by rw [diagnostic?, hmissing]; rfl, hreadable⟩
  | keep hnone hmissing =>
    exact ⟨hwaiting, .inr ⟨hnone, rfl⟩, by rw [diagnostic?, hmissing]; rfl, hreadable⟩
  | unresolved polyfill name descriptor hnone hmissing =>
    exact ⟨hwaiting, .inr ⟨hnone, rfl⟩, by rw [diagnostic?, hmissing]; rfl, hreadable⟩

/-- The plan for a call, read off the rule that it comes from. Calls that are no constructor calls
do not ask what waits. -/
theorem planAt_call {target : MemberRef} {plan : CallPlan} {waiting : List (Nat × String)}
    (hcall : isCall e.2.opcode = true) (htarget : callee? pool e.2 = some target)
    (h : CallPlan.ofCall s e.1 e.2.opcode target = .ok plan) : PlanAt s pool waiting e plan := by
  have hmissing : missing? s pool e.2 = lacking? s e.2.opcode target := by
    rw [missing?, if_pos hcall, htarget, Option.bind_some]
  have hconstructor : ∀ newPc name callee, ¬ Constructs s pool waiting e.2 newPc name callee :=
    fun _ _ _ hconstructs => hconstructs.not_isCall hcall
  have hnone (hstays : ∀ callee, ¬ GoesTo s e.2.opcode target callee) :
      NoSiteAt s pool waiting e := by
    refine ⟨fun target' callee _ htarget' => ?_, hconstructor⟩
    rw [htarget] at htarget'
    cases htarget'
    exact hstays callee
  -- The three plans, each with what it says about rules and about missing methods.
  cases follows_of_ofCall h with
  | redirect site hgoes hlacks =>
    have hplanned := CallPlan.Planned.call (by simpa [isCall, or_assoc] using hcall) h
    have hnew : site.newSite = none := newSite_of_ofCall h
    exact .redirect site (.call target (CallPlan.pc_of_planned hplanned) hcall htarget hgoes hnew)
      (hmissing.trans hlacks)
  | keep hstays hlacks => exact .keep (hnone hstays) (hmissing.trans hlacks)
  | unresolved polyfill name descriptor hstays hlacks =>
    exact .unresolved polyfill name descriptor (hnone hstays) (hmissing.trans hlacks)

/-- The plan for the constructor call of the latest `new` that waits. There is nothing to report
about it, since only mixins lack something. -/
theorem planAt_constructor {target : MemberRef} {plan : CallPlan} {newPc : Nat}
    {rest : List (Nat × String)} (hop : e.2.opcode = Opcode.invokeSpecial)
    (htarget : constructor? pool e.2 = some target)
    (h : CallPlan.ofConstructor s e.1 newPc target = .ok plan) :
    PlanAt s pool ((newPc, target.owner) :: rest) e plan := by
  have hcall := isCall_eq_false (.inr hop)
  have hmissing : missing? s pool e.2 = none := by
    rw [missing?, if_neg (by simp [hcall])]
  cases plan with
  | redirect site =>
    obtain ⟨d, polyfill, hd, hpolyfill, hkind, rfl⟩ := CallPlan.ofConstructor_eq_redirect h
    exact .redirect _ (.constructor newPc polyfill.name rfl
      (.intro target rest polyfill d htarget rfl hpolyfill hkind hd) rfl) hmissing
  | keep =>
    refine .keep ⟨fun _ _ hother => ?_, fun newPc' name callee hconstructs => ?_⟩ hmissing
    · rw [hcall] at hother
      cases hother
    · -- With a rule for it, the plan would have been a site.
      cases hconstructs with
      | intro target' rest' polyfill d htarget' hwaiting hpolyfill hkind hd =>
        rw [htarget] at htarget'
        cases htarget'
        simp only [CallPlan.ofConstructor, hpolyfill, hkind, hd] at h
        cases h
  -- Planning a constructor call gives no such plan.
  | unresolved polyfill name descriptor =>
    unfold CallPlan.ofConstructor at h
    split at h
    · cases h
    · split at h
      · cases h
      · obtain ⟨d, _, hend⟩ := bind_eq_ok.1 h
        cases hend

/-- A visit of a constructor call takes the latest `new` that waits, if it is of that class. If it
is not, the call constructs no object that waits, and nothing is taken. -/
theorem visited_constructor {target : MemberRef} (htarget : constructor? pool e.2 = some target)
    (hop : e.2.opcode = Opcode.invokeSpecial)
    (h : (match p.waiting with
      | (newPc, name) :: rest =>
        if name = target.owner then do
          let plan ← CallPlan.ofConstructor s e.1 newPc target
          return Planning.add { p with waiting := rest } location (code.lineAt? e.1) e.1 plan
        else return p
      | [] => return p) = .ok next) : Visited s pool location code e p next := by
  have hmade : made? pool e.2 = none := made?_of_ne (by rw [hop]; decide)
  have hcall := isCall_eq_false (.inr hop)
  have hreadable := readable_of_not_isCall pool hcall
  -- Without a `new` of its class that waits last, the call is one of a superclass.
  have hstays (hwait : waitOn pool p.waiting e = p.waiting)
      (hother : ∀ newPc rest, p.waiting ≠ (newPc, target.owner) :: rest) :
      Visited s pool location code e p p := by
    refine visited_add hwait.symm (.keep ⟨fun _ _ hop => ?_, fun newPc name callee h => ?_⟩ ?_)
      hreadable
    · rw [hcall] at hop
      cases hop
    · cases h with
      | intro target' rest _ _ htarget' hwaiting =>
        rw [htarget] at htarget'
        cases htarget'
        exact hother newPc rest hwaiting
    · rw [missing?, if_neg (by simp [hcall])]
  split at h
  · next newPc name rest hwaiting =>
    split at h
    · next hname =>
      subst hname
      obtain ⟨plan, hplan, hend⟩ := bind_eq_ok.1 h
      cases hend
      refine visited_add ?_ ?_ hreadable
      · simp only [waitOn, hmade, htarget, hwaiting, if_true]
      · rw [hwaiting]
        exact planAt_constructor hop htarget hplan
    · next hname =>
      cases h
      refine hstays (by simp only [waitOn, hmade, htarget, hwaiting, if_neg hname]) ?_
      intro newPc' rest' hother
      rw [hwaiting] at hother
      cases hother
      exact hname rfl
  · next hwaiting =>
    cases h
    refine hstays (by simp only [waitOn, hmade, htarget, hwaiting]) ?_
    intro newPc' rest' hother
    rw [hwaiting] at hother
    cases hother

/-- **What a visit does**: it lets a `new` wait, takes one that waited, and makes a site or a
diagnostic for a call with a rule. The cases are the opcodes that are looked at. -/
theorem visited_of_visit (h : Planning.visit s pool location code p e = .ok next) :
    Visited s pool location code e p next := by
  obtain ⟨pc, i⟩ := e
  unfold Planning.visit at h
  simp only at h
  -- In the order of the visit: instructions without an index, `new`, `invokespecial`, calls, and
  -- all others.
  split at h
  · next hindex =>
    cases h
    have hcallee : callee? pool i = none := by rw [callee?, hindex, Option.bind_none]
    refine visited_of_none ?_ ?_ fun _ => hindex
    · rw [made?, hindex]
      split <;> rfl
    · rw [constructor?, hcallee]
      split <;> rfl
  · next index hindex =>
    have hcallee {target : MemberRef} (htarget : pool.getMember index = .ok target) :
        callee? pool i = some target := by
      rw [callee?, hindex, Option.bind_some, htarget]
      rfl
    split at h
    · next hop =>
      obtain ⟨name, hname, hend⟩ := bind_eq_ok.1 h
      cases hend
      refine visited_new hop ?_
      rw [made?, if_pos hop, hindex, Option.bind_some, hname]
      rfl
    · next hnew =>
      split at h
      · next hop =>
        obtain ⟨target, htarget, h⟩ := bind_eq_ok.1 h
        have hconstructor : constructor? pool i
            = (some target).filter fun target => target.name = Typing.constructorName := by
          rw [constructor?, if_pos hop, hcallee htarget]
        split at h
        · next hname =>
          cases h
          refine visited_of_none (made?_of_ne hnew) ?_ fun hcall => ?_
          · rw [hconstructor, Option.filter_some, if_neg (by simpa using hname)]
          · rw [isCall_eq_false (.inr hop)] at hcall
            cases hcall
        · next hname =>
          refine visited_constructor ?_ hop h
          rw [hconstructor, Option.filter_some, if_pos (by simpa using hname)]
      · next hspecial =>
        split at h
        · next hcall =>
          obtain ⟨target, htarget, h⟩ := bind_eq_ok.1 h
          obtain ⟨plan, hplan, hend⟩ := bind_eq_ok.1 h
          cases hend
          have hop : isCall i.opcode = true := hcall
          refine visited_add ?_ (planAt_call hop (hcallee htarget) hplan) fun _ index' hindex' => ?_
          · simp only [waitOn, made?_of_ne hnew, constructor?_of_ne hspecial]
          · rw [hindex] at hindex'
            cases hindex'
            obtain ⟨d, hd, _⟩ := CallPlan.ofCall_cases hplan
            exact ⟨target, d, htarget, hd⟩
        · next hcall =>
          cases h
          refine visited_of_none (made?_of_ne hnew) (constructor?_of_ne hspecial) fun hother => ?_
          exact absurd hother hcall

end Visit

end Redirection
end ClassLoom
