import ClassLoom.Proofs.Computation
import ClassLoom.Weave.CallSite

/-!
# Planned call sites

Every site that planning gives comes from a call of the body, by one of five rules. `Carries`
says what all rules have in common: the new call takes the receiver and the arguments of the
old one, in the old order, with every class in their types substituted.

* `ofCall_cases`: the rules for calls that are no constructor calls;
* `planned_of_planAll`: where sites come from;
* `Planned.exists_carries`: what sites are like;
* `NewDescriptor`: which descriptors the new calls are written with.
-/

namespace ClassLoom

namespace CallPlan

variable {s : Surroundings} {pc : Nat} {opcode : UInt8} {target : MemberRef} {plan : CallPlan}
  {site : CallSite}

/-! ## The rules

A plan is made by a cascade of conditions. Here each of its ends is a rule with all that leads to
it, so that what is said of a plan is said case by case. -/

/-- The class that declares the method a call names. -/
def declaring (s : Surroundings) (target : MemberRef) : String :=
  s.scope.declaringClass target.owner target.name target.descriptor

/-- Whether a call is one of a lambda carrier's factory. -/
def isFactoryCall (s : Surroundings) (opcode : UInt8) (target : MemberRef) : Bool :=
  opcode = Opcode.invokeStatic && target.name = s.conventions.lambdaFactory

/-- The rules for static, virtual and interface calls. -/
inductive OfCall (s : Surroundings) (pc : Nat) (opcode : UInt8) (target : MemberRef)
    (d : MethodDescriptor) : CallPlan → Prop where
  | toFactory (hfactory : isFactoryCall s opcode target = true) :
    OfCall s pc opcode target d (ofFactory s pc target d)
  | kept (hfactory : isFactoryCall s opcode target = false)
    (hpolyfill : s.polyfill? (declaring s target) = none) : OfCall s pc opcode target d keep
  | toMixin (polyfill : Polyfill) (hfactory : isFactoryCall s opcode target = false)
    (hpolyfill : s.polyfill? (declaring s target) = some polyfill)
    (hkind : polyfill.kind = .mixin) :
    OfCall s pc opcode target d
      (ofMixin s pc (opcode = Opcode.invokeStatic) target (declaring s target) polyfill d)
  | toStatic (polyfill : Polyfill) (hfactory : isFactoryCall s opcode target = false)
    (hpolyfill : s.polyfill? (declaring s target) = some polyfill)
    (hkind : polyfill.kind = .replacement) (hopcode : opcode = Opcode.invokeStatic) :
    OfCall s pc opcode target d (ofStatic s pc target polyfill d)
  | toInstance (polyfill : Polyfill) (hpolyfill : s.polyfill? (declaring s target) = some polyfill)
    (hkind : polyfill.kind = .replacement) (hopcode : opcode ≠ Opcode.invokeStatic) :
    OfCall s pc opcode target d (ofInstance s pc target polyfill d)

/-- Every call is planned by one of the rules. The descriptor of the call has been read by then.
Which rule it is depends on the opcode, on the name, and on the polyfill of the declaring class. -/
theorem ofCall_cases (h : ofCall s pc opcode target = .ok plan) :
    ∃ d, MethodDescriptor.parse target.descriptor = .ok d ∧ OfCall s pc opcode target d plan := by
  unfold ofCall at h
  obtain ⟨d, hd, h⟩ := bind_eq_ok.1 h
  refine ⟨d, hd, ?_⟩
  -- The cases of `OfCall` in the order in which the plan is made.
  change (if isFactoryCall s opcode target = true then pure (ofFactory s pc target d) else _)
    = Except.ok plan at h
  cases hfactory : isFactoryCall s opcode target with
  | true =>
    rw [hfactory, if_pos rfl] at h
    cases h
    exact .toFactory hfactory
  | false =>
    rw [hfactory, if_neg (by decide)] at h
    cases hpolyfill : s.polyfill? (declaring s target) with
    | none =>
      unfold declaring at hpolyfill
      simp only [hpolyfill] at h
      cases h
      exact .kept hfactory hpolyfill
    | some polyfill =>
      unfold declaring at hpolyfill
      simp only [hpolyfill] at h
      cases hkind : polyfill.kind with
      | mixin =>
        simp only [hkind] at h
        cases h
        exact .toMixin polyfill hfactory hpolyfill hkind
      | replacement =>
        simp only [hkind] at h
        split at h
        · next hopcode =>
          cases h
          exact .toStatic polyfill hfactory hpolyfill hkind hopcode
        · next hopcode =>
          cases h
          exact .toInstance polyfill hpolyfill hkind hopcode

/-- The site for a constructor call. It also has the `new` that made the object, whose class goes
with it. -/
theorem ofConstructor_eq_redirect {newPc : Nat}
    (h : ofConstructor s pc newPc target = .ok (.redirect site)) :
    ∃ d polyfill, MethodDescriptor.parse target.descriptor = .ok d
      ∧ s.polyfill? target.owner = some polyfill ∧ polyfill.kind = .replacement
      ∧ site = {
          pc
          receiverCast := none
          args := CallSite.castArgs s d.params
          call := {
            opcode := Opcode.invokeSpecial
            owner := polyfill.name
            name := Typing.constructorName
            descriptor := (s.substituteAll d).text
            ofInterface := false }
          newSite := some (newPc, polyfill.name) } := by
  unfold ofConstructor at h
  -- A class without a polyfill, or with a mixin, gives no site.
  split at h
  · cases h
  · next polyfill hpolyfill =>
    split at h
    · cases h
    · next hkind =>
      obtain ⟨d, hd, h⟩ := bind_eq_ok.1 h
      cases h
      exact ⟨d, polyfill, hd, hpolyfill, hkind, rfl⟩

/-- The descriptor of a lambda carrier's replacement factory: that of the factory, with the
carrier as its result. -/
def factoryDescriptor (owner : String) (d : MethodDescriptor) : MethodDescriptor :=
  { d with result := .value (.object owner) }

/-- The descriptor of a new factory is built from parts of the old one, and prints as one. -/
theorem text_factoryDescriptor (owner : String) (d : MethodDescriptor) :
    "(" ++ FieldType.textOfAll d.params ++ ")L" ++ owner ++ ";"
      = (factoryDescriptor owner d).text := by
  apply String.toList_inj.1
  simp [factoryDescriptor, FieldType.textOfAll, MethodDescriptor.text, MethodDescriptor.chars,
    ReturnType.chars, FieldType.chars]

/-- The site for a call of a lambda carrier's factory. Its operands stay as they are. What changes
is the name that is called, and that the carrier itself is given back. -/
theorem ofFactory_eq_redirect {d : MethodDescriptor}
    (h : ofFactory s pc target d = .redirect site) :
    site = {
      pc
      receiverCast := none
      args := d.params.map (·, none)
      call := {
        opcode := Opcode.invokeStatic
        owner := target.owner
        name := s.conventions.replacementFactory
        descriptor := (factoryDescriptor target.owner d).text
        ofInterface := false } } := by
  unfold ofFactory at h
  simp only [text_factoryDescriptor] at h
  split at h
  · cases h
    rfl
  · cases h

/-- A carrier whose factory takes the place of the old one declares it, with the descriptor that
the new call is written with. -/
theorem exists_of_ofFactory_eq_redirect {d : MethodDescriptor}
    (h : ofFactory s pc target d = .redirect site) :
    ∃ stub m, s.scope.lookup target.owner = some stub ∧ m ∈ stub.methods
      ∧ m.descriptor = (factoryDescriptor target.owner d).text := by
  unfold ofFactory at h
  simp only [text_factoryDescriptor] at h
  split at h
  · next hdeclared =>
    cases hlookup : s.scope.lookup target.owner with
    | none =>
      rw [hlookup] at hdeclared
      cases hdeclared
    | some stub =>
      rw [hlookup, Option.bind_some] at hdeclared
      cases hfound : stub.method? s.conventions.replacementFactory
          (factoryDescriptor target.owner d).text with
      | none =>
        rw [hfound] at hdeclared
        cases hdeclared
      | some m =>
        -- A method that is found has the name and the descriptor that were looked for.
        have hsame := List.find?_some hfound
        rw [Bool.and_eq_true, decide_eq_true_iff, decide_eq_true_iff] at hsame
        exact ⟨stub, m, rfl, List.mem_of_find?_eq_some hfound, hsame.2⟩
  · cases h

/-- The descriptor of the method of a mixin that a call goes to: the receiver of a call on an
instance is the first parameter. -/
def mixinDescriptor (s : Surroundings) (isStatic : Bool) (declaring : String)
    (d : MethodDescriptor) : MethodDescriptor :=
  if isStatic then s.substituteAll d
  else { s.substituteAll d with params := .object declaring :: (s.substituteAll d).params }

/-- The descriptor of a mixin's method is built from parts as well: of a call on an instance the
receiver is put in front. -/
theorem text_mixinDescriptor (s : Surroundings) (isStatic : Bool) (declaring : String)
    (d : MethodDescriptor) :
    (if isStatic then (s.substituteAll d).text
      else "(L" ++ declaring ++ ";" ++ FieldType.textOfAll (s.substituteAll d).params ++ ")"
        ++ (s.substituteAll d).result.text) = (mixinDescriptor s isStatic declaring d).text := by
  unfold mixinDescriptor
  cases isStatic with
  | true => rfl
  | false =>
    apply String.toList_inj.1
    simp [FieldType.textOfAll, ReturnType.text, MethodDescriptor.text, MethodDescriptor.chars,
      FieldType.chars]

/-- The site for a call that goes to a mixin. The receiver is cast to the class that declares the
method, which may be one above the class that the call names. -/
theorem ofMixin_eq_redirect {d : MethodDescriptor} {isStatic : Bool} {declaring : String}
    {polyfill : Polyfill} (h : ofMixin s pc isStatic target declaring polyfill d = .redirect site) :
    site = {
      pc
      receiverCast := if isStatic then none else some declaring
      args := CallSite.castArgs s d.params
      call := {
        opcode := Opcode.invokeStatic
        owner := polyfill.name
        name := target.name
        descriptor := (mixinDescriptor s isStatic declaring d).text
        ofInterface := polyfill.isInterface } } := by
  unfold ofMixin at h
  simp only [text_mixinDescriptor] at h
  split at h
  · cases h
    rfl
  · cases h

/-- Whether a rule makes a site out of a call at `pc`. -/
inductive Planned (s : Surroundings) (pc : Nat) (opcode : UInt8) (target : MemberRef)
    (site : CallSite) : Prop where
  | constructor (newPc : Nat) (hopcode : opcode = Opcode.invokeSpecial)
    (h : ofConstructor s pc newPc target = .ok (.redirect site))
  | call (hopcode : opcode = Opcode.invokeStatic ∨ opcode = Opcode.invokeVirtual
      ∨ opcode = Opcode.invokeInterface)
    (h : ofCall s pc opcode target = .ok (.redirect site))

/-! ## Where sites come from

Sites are collected by a scan that also keeps the objects that wait for their constructor calls. For
what a site is like only the call counts that it was planned for. -/

section Planning

variable {pool : ConstantPool} {location : Location} {code : Code}

/-- Whether a site has been planned for a call among the instructions of a body. -/
def PlannedIn (s : Surroundings) (pool : ConstantPool) (instructions : List (Nat × Instruction))
    (site : CallSite) : Prop :=
  ∃ i index target, (site.pc, i) ∈ instructions ∧ i.word? = some index
    ∧ pool.getMember index = .ok target ∧ Planned s site.pc i.opcode target site

/-- A site is at the offset of the call that it is planned for. Edits of a patch are kept by it. -/
theorem pc_of_planned (h : Planned s pc opcode target site) : site.pc = pc := by
  cases h with
  | constructor newPc _ h =>
    obtain ⟨_, _, _, _, _, rfl⟩ := ofConstructor_eq_redirect h
    rfl
  | call _ h =>
    obtain ⟨d, _, hplan⟩ := ofCall_cases h
    generalize hsite : CallPlan.redirect site = plan at hplan
    -- Whatever the rule, the offset is passed on to the site.
    cases hplan with
    | toFactory => rw [ofFactory_eq_redirect hsite.symm]
    | kept => cases hsite
    | toMixin => rw [ofMixin_eq_redirect hsite.symm]
    | toStatic =>
      cases hsite
      rfl
    | toInstance =>
      cases hsite
      rfl

/-- Taking a plan up adds no site but that of the plan. -/
theorem mem_sites_of_add {p : Planning} {line : Option UInt16} {plan : CallPlan}
    (h : site ∈ (p.add location line pc plan).sites) : site ∈ p.sites ∨ plan = .redirect site := by
  cases plan with
  | keep => exact .inl h
  | redirect site' =>
    rcases List.mem_cons.1 h with rfl | h
    · exact .inr rfl
    · exact .inl h
  | unresolved => exact .inl h

/-- Every visit adds only sites for the call that is visited. A `new` has a site only with its
constructor call. -/
theorem planned_of_visit {p next : Planning} {entry : Nat × Instruction}
    (h : Planning.visit s pool location code p entry = .ok next) (hsite : site ∈ next.sites) :
    site ∈ p.sites ∨ ∃ index target, entry.2.word? = some index
      ∧ pool.getMember index = .ok target ∧ Planned s entry.1 entry.2.opcode target site := by
  obtain ⟨pc, i⟩ := entry
  unfold Planning.visit at h
  simp only at h
  split at h
  · cases h
    exact .inl hsite
  · next index hindex =>
    split at h
    · -- A `new` waits, and adds no site yet.
      obtain ⟨name, _, h⟩ := bind_eq_ok.1 h
      cases h
      exact .inl hsite
    · split at h
      · next hopcode =>
        obtain ⟨target, htarget, h⟩ := bind_eq_ok.1 h
        split at h
        · cases h
          exact .inl hsite
        · split at h
          · next newPc name rest _ =>
            -- A constructor call behind a `new` that waits.
            split at h
            · obtain ⟨plan, hplan, h⟩ := bind_eq_ok.1 h
              cases h
              rcases mem_sites_of_add hsite with hsite | rfl
              · exact .inl hsite
              · exact .inr ⟨index, target, hindex, htarget, .constructor newPc hopcode hplan⟩
            · cases h
              exact .inl hsite
          · cases h
            exact .inl hsite
      · split at h
        · next hopcode =>
          obtain ⟨target, htarget, h⟩ := bind_eq_ok.1 h
          obtain ⟨plan, hplan, h⟩ := bind_eq_ok.1 h
          cases h
          rcases mem_sites_of_add hsite with hsite | rfl
          · exact .inl hsite
          · have hcall : i.opcode = Opcode.invokeStatic ∨ i.opcode = Opcode.invokeVirtual
                ∨ i.opcode = Opcode.invokeInterface := by simpa [or_assoc] using hopcode
            exact .inr ⟨index, target, hindex, htarget, .call hcall hplan⟩
        · cases h
          exact .inl hsite

/-- **Every site is planned** for a call of the body by one of the rules. No site comes from
anywhere else. -/
theorem planned_of_planAll {sites : List CallSite} {diagnostics : List Diagnostic}
    (h : CallSite.planAll s pool location code = .ok (sites, diagnostics)) :
    ∃ instructions, Instruction.decode code.bytecode = .ok instructions
      ∧ ∀ site ∈ sites, PlannedIn s pool instructions site := by
  obtain ⟨instructions, hdecode, h⟩ := bind_eq_ok.1 h
  obtain ⟨p, hp, h⟩ := bind_eq_ok.1 h
  cases h
  refine ⟨instructions, hdecode, fun site hsite => ?_⟩
  -- By induction on the instructions: each adds at most its own site to those so far.
  have hall : ∀ site ∈ p.sites, PlannedIn s pool instructions site := by
    refine foldlM_induction (P := fun p => ∀ site ∈ p.sites, PlannedIn s pool instructions site)
      hp (by simp) fun state entry hentry next hstate hvisit site hsite => ?_
    rcases planned_of_visit hvisit hsite with hsite | ⟨index, target, hindex, htarget, hplanned⟩
    · exact hstate site hsite
    · have hpc := pc_of_planned hplanned
      refine ⟨entry.2, index, target, ?_, hindex, htarget, ?_⟩
      · rw [hpc]
        exact hentry
      · rw [hpc]
        exact hplanned
  exact hall site (List.mem_reverse.1 hsite)

end Planning

/-! ## What sites are like

A site takes from the stack what the old call took, in the same order, some of it with a cast. So it
can stand where the old call stood. -/

/-- The family of a result; nothing if there is none. -/
def resultFamily? : ReturnType → Option UInt8
  | .void => none
  | .value type => some (Instruction.family type)

/-- The types that a call takes from the stack, first one first: the receiver, if the call is
not static, and the parameters. -/
def takes (opcode : UInt8) (owner : String) (d : MethodDescriptor) : List FieldType :=
  if opcode = Opcode.invokeStatic then d.params else .object owner :: d.params

/-- What the method that a call of `target` goes to takes and gives, where the old call has the
descriptor `d`. Classes have their polyfills substituted for them; a mixin takes the receiver of a
call on an instance besides, under the name of the class that declares the method; and the new
factory of a carrier is one that the carrier declares. -/
inductive NewDescriptor (s : Surroundings) (opcode : UInt8) (target : MemberRef)
    (d : MethodDescriptor) : MethodDescriptor → Prop where
  | substituted : NewDescriptor s opcode target d (s.substituteAll d)
  | withReceiver (hopcode : opcode ≠ Opcode.invokeStatic) (polyfill : Polyfill)
    (hpolyfill : s.polyfill? (declaring s target) = some polyfill)
    (hkind : polyfill.kind = .mixin) :
    NewDescriptor s opcode target d (mixinDescriptor s false (declaring s target) d)
  | ofFactory (stub : ClassStub) (m : MethodStub) (hstub : s.scope.lookup target.owner = some stub)
    (hm : m ∈ stub.methods) (hdescriptor : m.descriptor = (factoryDescriptor target.owner d).text) :
    NewDescriptor s opcode target d (factoryDescriptor target.owner d)

/-- Whether the call that a site makes, with the descriptor `callee`, takes what the old call,
one of `target` with the descriptor `d`, took: the receiver and the arguments in order, with
substituted types. All references are cast to what they are taken as, but for the operands of
a lambda carrier's factory and for new objects. -/
structure Carries (s : Surroundings) (opcode : UInt8) (target : MemberRef) (d : MethodDescriptor)
    (site : CallSite) (callee : MethodDescriptor) : Prop where
  descriptor : site.call.descriptor = callee.text
  args : site.args = d.params.map fun type => (type,
    if isFactoryCall s opcode target then none else (s.substitute type).classEntryName?)
  operands : ∃ owner,
    takes site.call.opcode site.call.owner callee
        = (if opcode = Opcode.invokeStatic then [] else [.object owner])
          ++ d.params.map (fun type =>
            if isFactoryCall s opcode target then type else s.substitute type)
      ∧ site.receiverCast
        = if opcode = Opcode.invokeStatic ∨ opcode = Opcode.invokeSpecial then none else some owner
  /-- What the call leaves is of the same family as before. For a factory call that is so only
  if it gave a reference. -/
  result : (isFactoryCall s opcode target = true →
      ∃ type, d.result = .value type ∧ type.isReference = true) →
    resultFamily? callee.result = resultFamily? d.result

/-- All references are of one family. -/
theorem family_of_isReference {type : FieldType} (h : type.isReference = true) :
    Instruction.family type = 4 := by
  cases type with
  | base type => cases h
  | object name => rfl
  | array component => rfl

/-- Substitution leaves types in their families. -/
theorem family_substitute (s : Surroundings) (type : FieldType) :
    Instruction.family (s.substitute type) = Instruction.family type := by
  cases type with
  | base type => rfl
  | object name =>
    unfold Surroundings.substitute
    split <;> rfl
  | array component => rfl

/-- Substitution leaves results in their families. -/
theorem resultFamily?_substituteResult (s : Surroundings) (result : ReturnType) :
    resultFamily? (s.substituteResult result) = resultFamily? result := by
  cases result with
  | void => rfl
  | value type => exact congrArg some (family_substitute s type)

/-- **Every planned site** takes what the call took that it stands for. What it calls has a
descriptor that is made from the one of the call. -/
theorem Planned.exists_carries (h : Planned s pc opcode target site) :
    ∃ d callee, MethodDescriptor.parse target.descriptor = .ok d
      ∧ NewDescriptor s opcode target d callee ∧ Carries s opcode target d site callee := by
  cases h with
  | constructor newPc hopcode h =>
    obtain ⟨d, polyfill, hd, _, _, rfl⟩ := ofConstructor_eq_redirect h
    subst hopcode
    exact ⟨d, s.substituteAll d, hd, .substituted, rfl, rfl, ⟨polyfill.name, rfl, rfl⟩,
      fun _ => resultFamily?_substituteResult s d.result⟩
  | call hopcode h =>
    obtain ⟨d, hd, hplan⟩ := ofCall_cases h
    generalize hsite : CallPlan.redirect site = plan at hplan
    cases hplan with
    | toFactory hfactory =>
      have hstatic : opcode = Opcode.invokeStatic := by
        simp only [isFactoryCall, Bool.and_eq_true, decide_eq_true_eq] at hfactory
        exact hfactory.1
      subst hstatic
      obtain ⟨stub, m, hstub, hm, hdescriptor⟩ := exists_of_ofFactory_eq_redirect hsite.symm
      rw [ofFactory_eq_redirect hsite.symm]
      refine ⟨d, factoryDescriptor target.owner d, hd, .ofFactory stub m hstub hm hdescriptor, rfl,
        ?_, ⟨"", ?_, rfl⟩, ?_⟩
      · simp [hfactory]
      · simp [hfactory, takes, factoryDescriptor]
      · intro hresult
        obtain ⟨type, htype, hreference⟩ := hresult hfactory
        rw [htype]
        exact congrArg some (family_of_isReference hreference).symm
    | kept => cases hsite
    | toMixin polyfill hfactory hpolyfill hkind =>
      rw [ofMixin_eq_redirect hsite.symm]
      -- A mixin takes the receiver of a call on an instance as its first parameter.
      have hnew : NewDescriptor s opcode target d
          (mixinDescriptor s (opcode = Opcode.invokeStatic) (declaring s target) d) := by
        by_cases hstatic : opcode = Opcode.invokeStatic
        · rw [decide_eq_true hstatic]
          exact .substituted
        · rw [decide_eq_false hstatic]
          exact .withReceiver hstatic polyfill hpolyfill hkind
      refine ⟨d, mixinDescriptor s (opcode = Opcode.invokeStatic) (declaring s target) d, hd, hnew,
        rfl, ?_, ⟨declaring s target, ?_, ?_⟩, ?_⟩
      · simp [hfactory, CallSite.castArgs]
      · simp only [hfactory, takes, mixinDescriptor, Surroundings.substituteAll]
        by_cases hstatic : opcode = Opcode.invokeStatic <;> simp [hstatic]
      · rcases hopcode with rfl | rfl | rfl <;> rfl
      · intro _
        unfold mixinDescriptor
        split <;> exact resultFamily?_substituteResult s d.result
    | toStatic polyfill hfactory _ _ hstatic =>
      cases hsite
      subst hstatic
      refine ⟨d, s.substituteAll d, hd, .substituted, rfl, ?_, ⟨"", ?_, rfl⟩,
        fun _ => resultFamily?_substituteResult s d.result⟩
      · simp [hfactory, CallSite.castArgs]
      · simp [hfactory, takes, Surroundings.substituteAll]
    | toInstance polyfill _ _ hinstance =>
      cases hsite
      have hfactory : isFactoryCall s opcode target = false := by
        simp [isFactoryCall, hinstance]
      refine ⟨d, s.substituteAll d, hd, .substituted, rfl, ?_, ⟨polyfill.name, ?_, ?_⟩,
        fun _ => resultFamily?_substituteResult s d.result⟩
      · simp [hfactory, CallSite.castArgs]
      -- Neither way of calling an instance method is a static call.
      · have hnew : (if polyfill.isInterface then Opcode.invokeInterface else Opcode.invokeVirtual)
            ≠ Opcode.invokeStatic := by
          split <;> decide
        simp only [takes, hfactory]
        rw [if_neg hnew, if_neg hinstance]
        rfl
      · rcases hopcode with rfl | rfl | rfl
        · exact absurd rfl hinstance
        · rfl
        · rfl

end CallPlan
end ClassLoom
