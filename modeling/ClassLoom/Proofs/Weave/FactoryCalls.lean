import ClassLoom.Proofs.Weave.Declared

/-!
# Calls of old factories

Narrowing takes a lambda carrier's old factory away, since redirecting has sent the calls of it
to the replacement factory. A call can be left, though: `Escapes` lists the three ways, and there
is no other.

* `escapes_of_outcome`: the calls of old factories that redirecting leaves in a method;
* `escapes_of_calledFactories`: all calls of old factories in a woven batch;
* `declares_or_escapes`: the calls of lost factories in a woven batch.
-/

namespace ClassLoom

open ConstantPool
open Redirection

/-- The replacement factory is called by another name than the old one. It is the old name with the
prefix of polyfills in front, which may not be blank. -/
theorem Settings.replacementFactory_ne {settings : Settings} {conventions : Conventions}
    (h : settings.conventions = .ok conventions) :
    conventions.replacementFactory ≠ conventions.lambdaFactory := by
  unfold Settings.conventions at h
  cases hfind : settings.required.find? fun e => (Text.trimChars e.2.toList).isEmpty with
  | some blank =>
    simp only [hfind] at h
    cases h
  | none =>
    simp only [hfind] at h
    split at h
    · cases h
    · split at h
      · cases h
        intro hsame
        have hlists := congrArg String.toList hsame
        rw [String.toList_append, List.append_left_eq_self] at hlists
        -- A prefix without characters is a blank one.
        have hprefix : ("replacement_prefix", settings.replacementPrefix) ∈ settings.required := by
          simp [Settings.required]
        refine List.find?_eq_none.1 hfind _ hprefix ?_
        simp only [hlists]
        rfl
      · cases h

namespace Weave

/-! ## Calls that are left

A call of an old factory can be left for one of a few reasons, each of which says something of the
scope or of the report. The cases follow the two ways a call may come through redirecting: it has no
rule, or it has one. -/

/-- The static calls of old factories in a method of a class, if it has a body that can be
read. -/
def calledFactories (conventions : Conventions) (c : ClassFile) (m : Member) : List MemberRef :=
  match m.code? c.pool with
  | .ok (some code) =>
    match Instruction.decode code.bytecode with
    | .ok body => body.filterMap fun e =>
      if e.2.opcode = Opcode.invokeStatic then
        (callee? c.pool e.2).filter fun target => target.name = conventions.lambdaFactory
      else none
    | .error _ => []
  | _ => []

/-- How a call of the factory of `carrier` with the given descriptor is left in a method of a
woven class; `s` is what can be seen when calls are redirected. -/
inductive Escapes (s : Surroundings) (diagnostics : List Diagnostic) (className : String)
    (m : Member) (carrier descriptor : String) : Prop where
  /-- The method could not be read or written, which has been reported. -/
  | failed (message : String)
    (h : .malformed (.ofMethod className m.name m.descriptor) message ∈ diagnostics) :
    Escapes s diagnostics className m carrier descriptor
  /-- No replacement factory with the parameters of the call can be seen in the carrier. -/
  | unseen (d : MethodDescriptor) (hd : MethodDescriptor.parse descriptor = .ok d)
    (h : declaresStatic s carrier s.conventions.replacementFactory
      (CallPlan.factoryDescriptor carrier d).text = false) :
    Escapes s diagnostics className m carrier descriptor
  /-- The carrier is a mixin, and the call is one that has been sent to it. -/
  | mixin (name : String) (polyfill : Polyfill) (hpolyfill : s.polyfill? name = some polyfill)
    (hkind : polyfill.kind = .mixin) (hname : polyfill.name = carrier) :
    Escapes s diagnostics className m carrier descriptor

/-- A static call of an old factory stands in the body of the method. Where a body cannot be read,
there are none. -/
theorem exists_of_mem_calledFactories {conventions : Conventions} {c : ClassFile} {m : Member}
    {target : MemberRef} (h : target ∈ calledFactories conventions c m) :
    ∃ code body e, m.code? c.pool = .ok (some code)
      ∧ Instruction.decode code.bytecode = .ok body ∧ e ∈ body
      ∧ e.2.opcode = Opcode.invokeStatic ∧ callee? c.pool e.2 = some target
      ∧ target.name = conventions.lambdaFactory := by
  unfold calledFactories at h
  split at h
  · next code hcode =>
    split at h
    · next body hdecode =>
      obtain ⟨e, he, hcall⟩ := List.mem_filterMap.1 h
      split at hcall
      · next hop =>
        obtain ⟨hcallee, hname⟩ := Option.filter_eq_some_iff.1 hcall
        exact ⟨code, body, e, hcode, hdecode, he, hop, hcallee, of_decide_eq_true hname⟩
      · cases hcall
    · cases h
  · cases h

section Left

variable {s : Surroundings} {className : String} {pool last : ConstantPool}
  {diagnostics : List Diagnostic} {m : Member} {target : MemberRef}
  {body : List (Nat × Instruction)} {e : Nat × Instruction}

/-- An instruction that names a method is written as it was. -/
theorem eq_of_relocated {f : Nat → Nat} {i j : Instruction} (h : Instruction.Relocated f i j)
    (hcallee : callee? pool j = some target) : i = j := by
  obtain ⟨index, hindex, _⟩ := exists_word_of_callee? hcallee
  cases h with
  | same =>
    cases i with
    | plain bytes => rfl
    | branch op target => cases hindex
    | tableSwitch default low targets => cases hindex
    | lookupSwitch default cases => cases hindex
  | widened op target hop => cases hindex

/-- Moves of operands are no calls. They are loads, stores and casts, in whatever form. So what a
site puts in front of its call adds no calls of factories. -/
theorem callee?_of_isMove {i : Instruction} (h : i.IsMove) (hop : i.opcode = Opcode.invokeStatic) :
    callee? pool i = none := by
  have haccess (opcode short : UInt8) (slot : UInt16)
      (hop : (Instruction.localAccess opcode short slot).opcode = Opcode.invokeStatic) :
      callee? pool (Instruction.localAccess opcode short slot) = none := by
    unfold Instruction.localAccess at hop ⊢
    split
    · rfl
    · split
      · rfl
      · next hshort hbyte =>
        rw [if_neg hshort, if_neg hbyte] at hop
        cases hop
  cases h with
  | load type slot => exact haccess _ _ _ hop
  | store type slot => exact haccess _ _ _ hop
  | cast index => cases hop

/-- A factory call without a rule is one for which no replacement factory can be seen. The rule for
such calls asks for nothing else. -/
theorem escapes_of_not_rewrite (hreadable : Readable pool e.2)
    (hnone : ∀ r, ¬ Rewrite s pool body e r) (hgrown : Grown pool last)
    (hop : e.2.opcode = Opcode.invokeStatic) (hcallee : callee? last e.2 = some target)
    (hname : target.name = s.conventions.lambdaFactory) :
    Escapes s diagnostics className m target.owner target.descriptor := by
  obtain ⟨index, hindex, hmember⟩ := exists_word_of_callee? hcallee
  have hcall : isCall e.2.opcode = true := by rw [hop]; rfl
  obtain ⟨target', d, hmember', hd⟩ := hreadable hcall index hindex
  rw [hgrown.getMember hmember'] at hmember
  cases hmember
  have htarget : callee? pool e.2 = some target := by
    rw [callee?, hindex, Option.bind_some, hmember']
    rfl
  have hfactory : CallPlan.isFactoryCall s e.2.opcode target = true := by
    simp [CallPlan.isFactoryCall, hop, hname]
  refine .unseen d hd ?_
  by_contra hdeclared
  exact hnone _ (.call target _ hcall htarget
    (.factory d hd hfactory (eq_true_of_ne_false hdeclared)))

/-- A static call that was emitted is one on the class and by the name of its site. Its descriptor
may be another one than that of the old call. -/
theorem target_of_invokes {i : Instruction} {callee : Invocation}
    (h : CallSite.Invokes last i callee) (hop : i.opcode = Opcode.invokeStatic)
    (hcallee : callee? last i = some target) :
    callee.opcode = Opcode.invokeStatic ∧ callee.owner = target.owner
      ∧ callee.name = target.name := by
  obtain ⟨index, hmember, hother, hinterface⟩ := h
  by_cases hcalled : callee.opcode = Opcode.invokeInterface
  · obtain ⟨d, _, _, rfl⟩ := hinterface hcalled
    cases hop
  · obtain rfl := hother hcalled
    obtain ⟨index', hindex, hmember'⟩ := exists_word_of_callee? hcallee
    have hword : index = index' := by
      have hsame : Bytes.toWord16 _ _ = index := Bytes.toWord16_word16 index
      rw [← hsame]
      exact Option.some.inj hindex
    rw [← hword, hmember] at hmember'
    cases hmember'
    exact ⟨hop, rfl, rfl⟩

/-- A call of an old factory that is emitted for a rewritten instruction is one of a mixin. All
others go to names that the source does not choose. -/
theorem escapes_of_rewrite {r : Rewriting} {is : List Instruction} {i : Instruction}
    (hfactory : s.conventions.replacementFactory ≠ s.conventions.lambdaFactory)
    (hrewrite : Rewrite s pool body e r) (hemits : Emits last r is) (hi : i ∈ is)
    (hop : i.opcode = Opcode.invokeStatic) (hcallee : callee? last i = some target)
    (hname : target.name = s.conventions.lambdaFactory) :
    Escapes s diagnostics className m target.owner target.descriptor := by
  cases hemits with
  | make name index _ =>
    rw [List.mem_singleton.1 hi] at hop
    cases hop
  | call callee moves call hmoves hinvokes =>
    rcases List.mem_append.1 hi with hmove | hcall
    · rw [callee?_of_isMove (hmoves i hmove) hop] at hcallee
      cases hcallee
    · obtain rfl := List.mem_singleton.1 hcall
      obtain ⟨hopcode, howner, hcalleeName⟩ := target_of_invokes hinvokes hop hcallee
      rw [hname] at hcalleeName
      cases hrewrite with
      | construct _ _ _ _ _ _ hconstructs =>
        cases hconstructs
        cases hopcode
      | call target' _ hcall _ hgoes =>
        cases hgoes with
        | factory => exact absurd hcalleeName hfactory
        | mixin d hd polyfill _ hpolyfill hkind =>
          exact .mixin _ polyfill hpolyfill hkind howner
        | replacement d hd polyfill hother =>
          -- Only a static call goes to a static method, and this one has the factory's name.
          have hstatic : e.2.opcode = Opcode.invokeStatic := by
            by_contra hinstance
            simp only [replacementCallee, if_neg hinstance] at hopcode
            split at hopcode <;> cases hopcode
          have hfactoryCall : CallPlan.isFactoryCall s e.2.opcode target' = true := by
            have hname' : target'.name = s.conventions.lambdaFactory := hcalleeName
            simp [CallPlan.isFactoryCall, hstatic, hname']
          rw [hfactoryCall] at hother
          cases hother

/-- **The calls of old factories that redirecting leaves** in a method. A method that could not be
read is left as it was, and so is one without anything to redirect. -/
theorem escapes_of_outcome {m₁ : Member} {found : List Diagnostic} {code : Code}
    (hfactory : s.conventions.replacementFactory ≠ s.conventions.lambdaFactory)
    (h : Outcome s className pool last m₁ (m, found)) (hgrown : Grown pool last)
    (hfound : ∀ x ∈ found, x ∈ diagnostics) (hcode : m.code? last = .ok (some code))
    (hdecode : Instruction.decode code.bytecode = .ok body) (he : e ∈ body)
    (hop : e.2.opcode = Opcode.invokeStatic) (hcallee : callee? last e.2 = some target)
    (hname : target.name = s.conventions.lambdaFactory) :
    Escapes s diagnostics className m target.owner target.descriptor := by
  cases h with
  | bodiless hnone =>
    rw [Member.code?_grown hgrown hnone] at hcode
    cases hcode
  | untouched code₁ body₁ hcode₁ hdecode₁ hreadable hnone =>
    rw [Member.code?_grown hgrown hcode₁] at hcode
    cases hcode
    rw [hdecode₁] at hdecode
    cases hdecode
    exact escapes_of_not_rewrite (hreadable e he) (hnone e he) hgrown hop hcallee hname
  | redirected code₁ code' body₁ moved became newOffset info _ _ hreadable _ hcode' hmoved hbody =>
    rw [hcode'] at hcode
    cases hcode
    rw [hmoved] at hdecode
    cases hdecode
    -- The call stands for an instruction of the old body, and is what that has become.
    obtain ⟨i, hi, hrelocated⟩ := exists_of_mem_right hbody.instructions (List.mem_map_of_mem he)
    obtain rfl := eq_of_relocated hrelocated hcallee
    obtain ⟨e₁, he₁, hi⟩ := List.mem_flatMap.1 hi
    have hbecomes := hbody.becomes e₁ he₁
    by_cases hrewrite : ∃ r, Rewrite s pool body₁ e₁ r
    · obtain ⟨r, hrewrite⟩ := hrewrite
      exact escapes_of_rewrite hfactory hrewrite (hbecomes.rewritten r hrewrite) hi hop hcallee
        hname
    · have hnone := not_exists.1 hrewrite
      rw [hbecomes.kept hnone] at hi
      have hsame : e.2 = e₁.2 := List.mem_singleton.1 hi
      rw [hsame] at hop hcallee
      exact escapes_of_not_rewrite (hreadable e₁ he₁) hnone hgrown hop hcallee hname
  | failed error _ => exact .failed error.message (hfound _ (List.mem_singleton.2 rfl))

end Left

/-! ## Woven batches

A factory is lost in the third phase, while calls go elsewhere in the second. The two are tied by
what the second phase can see. -/

section Batch

variable {conventions : Conventions} {classpath : ClassIndex} {batch : List ClassFile}

/-- What a step reports of a class is reported by its phase. -/
theorem mem_phase_diagnostics {step : Step} {woven : Woven} {c : ClassFile} {x : Diagnostic}
    (hc : c ∈ woven.classes)
    (hx : x ∈ (step (surroundings conventions classpath woven.classes) c).2) :
    x ∈ (phase step conventions classpath woven).diagnostics :=
  List.mem_append_right _ (List.mem_flatMap.2 ⟨_, List.mem_map_of_mem hc, hx⟩)

/-- What is reported when classes are prepared is reported of the woven batch. -/
theorem mem_weave_diagnostics_of_prepare {c : ClassFile} {x : Diagnostic} (hc : c ∈ batch)
    (hx : x ∈ (prepare (surroundings conventions classpath batch) c).2) :
    x ∈ (weave conventions classpath batch).diagnostics := by
  have hprepared : x ∈ (phase prepare conventions classpath ⟨batch, []⟩).diagnostics :=
    mem_phase_diagnostics hc hx
  exact List.mem_append_left _ (List.mem_append_left _ hprepared)

/-- What is reported when calls are redirected is reported of the woven batch. -/
theorem mem_weave_diagnostics {c : ClassFile} {x : Diagnostic}
    (hc : c ∈ phaseClasses prepare conventions classpath batch)
    (hx : x ∈ (redirectCalls (surroundings conventions classpath
      (phaseClasses prepare conventions classpath batch)) c).2) :
    x ∈ (weave conventions classpath batch).diagnostics := by
  rw [← phase_classes prepare conventions classpath ⟨batch, []⟩] at hc hx
  exact List.mem_append_left _ (mem_phase_diagnostics hc hx)

/-- A class after a phase is what the step made of the one in its place. -/
theorem getElem?_phaseClasses {step : Step} {classes : List ClassFile} {k : Nat} {new : ClassFile}
    (h : (phaseClasses step conventions classpath classes)[k]? = some new) :
    ∃ old, classes[k]? = some old
      ∧ new = (step (surroundings conventions classpath classes) old).1 := by
  rw [phaseClasses, List.getElem?_map] at h
  obtain ⟨old, hold, hnew⟩ := Option.map_eq_some_iff.1 h
  exact ⟨old, hold, hnew.symm⟩

/-- What a class of a woven batch has been, and what it was when calls were redirected. Of the
scopes in between only the conventions are named. -/
theorem getElem?_weave {k : Nat} {new : ClassFile}
    (h : (weave conventions classpath batch).classes[k]? = some new) :
    ∃ old prepared s, batch[k]? = some old
      ∧ prepared = (prepare (surroundings conventions classpath batch) old).1
      ∧ prepared ∈ phaseClasses prepare conventions classpath batch
      ∧ s.conventions = conventions
      ∧ new = narrowCarrier s (redirectCalls (surroundings conventions classpath
          (phaseClasses prepare conventions classpath batch)) prepared).1 := by
  rw [weave_classes] at h
  obtain ⟨redirected, hredirected, rfl⟩ := getElem?_phaseClasses h
  obtain ⟨prepared, hprepared, rfl⟩ := getElem?_phaseClasses hredirected
  obtain ⟨old, hold, hsame⟩ := getElem?_phaseClasses hprepared
  exact ⟨old, prepared, _, hold, hsame, List.mem_of_getElem? hprepared, rfl, narrow_fst _ _⟩

/-- Only narrowing takes methods from the classes of a batch, and from carriers with a replacement
factory only. -/
theorem declares_weave {name descriptor : String} {k : Nat} {old new : ClassFile}
    (hfactory : conventions.replacementFactory ≠ conventions.lambdaFactory)
    (hold : batch[k]? = some old)
    (hnew : (weave conventions classpath batch).classes[k]? = some new)
    (hdeclares : old.Declares name descriptor) :
    new.name = old.name
      ∧ (new.Declares name descriptor ∨ HasReplacementFactory conventions new) := by
  obtain ⟨old', prepared, s, hold', hprepared, _, rfl, rfl⟩ := getElem?_weave hnew
  rw [hold] at hold'
  cases hold'
  have hextends := prepare_extends (surroundings s.conventions classpath batch) old
  have hkeeps : prepared.Declares name descriptor := by
    rw [hprepared]
    exact declares_prepare hdeclares
  refine ⟨?_, declares_narrowCarrier hfactory (declares_redirectCalls hkeeps)⟩
  rw [narrowCarrier_name, (redirectCalls_extends _ _).name, hprepared, hextends.name]

/-- **Each call of an old factory in a woven batch** has escaped. The last phase changes no bodies,
so the call is there when calls have been redirected. -/
theorem escapes_of_calledFactories {caller : ClassFile} {m : Member} {target : MemberRef}
    (hfactory : conventions.replacementFactory ≠ conventions.lambdaFactory)
    (hbatch : ∀ c ∈ batch, Reachable c.pool)
    (hcaller : caller ∈ (weave conventions classpath batch).classes) (hm : m ∈ caller.methods)
    (hcall : target ∈ calledFactories conventions caller m) :
    Escapes (surroundings conventions classpath
        (phaseClasses prepare conventions classpath batch))
      (weave conventions classpath batch).diagnostics caller.name m target.owner
      target.descriptor := by
  obtain ⟨k, hk⟩ := List.mem_iff_getElem?.1 hcaller
  obtain ⟨c, prepared, _, hc, hprepared, hmem, _, rfl⟩ := getElem?_weave hk
  have hpool : Reachable prepared.pool := by
    rw [hprepared]
    exact (prepare_extends _ c).pool.reachable (hbatch c (List.mem_of_getElem? hc))
  obtain ⟨results, last, hredirect, houtcomes⟩ := redirectCalls_eq (surroundings conventions
    classpath (phaseClasses prepare conventions classpath batch)) prepared hpool
  obtain ⟨code, body, e, hcode, hdecode, he, hop, hcallee, hname⟩ :=
    exists_of_mem_calledFactories hcall
  rw [narrowCarrier_pool, hredirect] at hcode hcallee
  -- The method is what one of the class has become.
  have hm := mem_methods_of_narrowCarrier hm
  rw [hredirect] at hm
  obtain ⟨⟨m', found⟩, hresult, rfl⟩ := List.mem_map.1 hm
  obtain ⟨_, _, before, _, hlast, houtcome⟩ := exists_of_mem_right houtcomes hresult
  rw [narrowCarrier_name, hredirect]
  refine escapes_of_outcome hfactory houtcome hlast.grown (fun x hx => ?_) hcode hdecode he hop
    hcallee hname
  refine mem_weave_diagnostics hmem ?_
  rw [hredirect]
  exact List.mem_flatMap.2 ⟨_, hresult, hx⟩

/-- **Which calls of lost factories there are in a woven batch.** Where a method of a woven class
still calls the factory of a class that declared it, and that does so no more, the class is a
carrier with a replacement factory, and the call has escaped. -/
theorem declares_or_escapes {settings : Settings}
    (hsettings : settings.conventions = .ok conventions)
    (hbatch : ∀ c ∈ batch, Reachable c.pool) {i : Nat} {old new caller : ClassFile}
    {m : Member} {target : MemberRef} (hold : batch[i]? = some old)
    (hnew : (weave conventions classpath batch).classes[i]? = some new)
    (hcaller : caller ∈ (weave conventions classpath batch).classes) (hm : m ∈ caller.methods)
    (hcall : target ∈ calledFactories conventions caller m) (howner : target.owner = old.name)
    (hdeclares : old.Declares target.name target.descriptor) :
    new.Declares target.name target.descriptor
      ∨ HasReplacementFactory conventions new
        ∧ Escapes (surroundings conventions classpath
            (phaseClasses prepare conventions classpath batch))
          (weave conventions classpath batch).diagnostics caller.name m new.name
          target.descriptor := by
  have hfactory := settings.replacementFactory_ne hsettings
  obtain ⟨hname, hkept | hcarrier⟩ := declares_weave hfactory hold hnew hdeclares
  · exact .inl hkept
  · have hescapes := escapes_of_calledFactories hfactory hbatch hcaller hm hcall
    rw [howner, ← hname] at hescapes
    exact .inr ⟨hcarrier, hescapes⟩

end Batch

/-- A lambda carrier with two factories, one that takes an `int` and one that takes a `long`. -/
def carrierOfTwo : Bytes :=
  [202, 254, 186, 190, 0, 0, 0, 50, 0, 21, 1, 0, 11, 65, 36, 36, 76, 97, 109, 98, 100, 97, 36, 49,
   7, 0, 1, 1, 0, 16, 106, 97, 118, 97, 47, 108, 97, 110, 103, 47, 79, 98, 106, 101, 99, 116, 7,
   0, 3, 1, 0, 1, 73, 7, 0, 5, 1, 0, 6, 60, 105, 110, 105, 116, 62, 1, 0, 4, 40, 73, 41, 86, 1, 0,
   3, 40, 41, 86, 12, 0, 7, 0, 9, 10, 0, 4, 0, 10, 1, 0, 4, 67, 111, 100, 101, 1, 0, 4, 40, 74,
   41, 86, 1, 0, 14, 108, 97, 109, 98, 100, 97, 70, 97, 99, 116, 111, 114, 121, 36, 1, 0, 6, 40,
   73, 41, 76, 73, 59, 12, 0, 7, 0, 8, 10, 0, 2, 0, 16, 1, 0, 6, 40, 74, 41, 76, 73, 59, 12, 0, 7,
   0, 13, 10, 0, 2, 0, 19, 0, 33, 0, 2, 0, 4, 0, 1, 0, 6, 0, 0, 0, 4, 0, 2, 0, 7, 0, 8, 0, 1, 0,
   12, 0, 0, 0, 17, 0, 1, 0, 2, 0, 0, 0, 5, 42, 183, 0, 11, 177, 0, 0, 0, 0, 0, 2, 0, 7, 0, 13, 0,
   1, 0, 12, 0, 0, 0, 17, 0, 1, 0, 3, 0, 0, 0, 5, 42, 183, 0, 11, 177, 0, 0, 0, 0, 0, 8, 0, 14, 0,
   15, 0, 1, 0, 12, 0, 0, 0, 21, 0, 3, 0, 1, 0, 0, 0, 9, 187, 0, 2, 89, 26, 183, 0, 17, 176, 0, 0,
   0, 0, 0, 8, 0, 14, 0, 18, 0, 1, 0, 12, 0, 0, 0, 21, 0, 4, 0, 2, 0, 0, 0, 9, 187, 0, 2, 89, 30,
   183, 0, 20, 176, 0, 0, 0, 0, 0, 0]

/-- A class `A` whose method calls the second factory of the carrier. -/
def callOfSecond : Bytes :=
  [202, 254, 186, 190, 0, 0, 0, 50, 0, 14, 1, 0, 1, 65, 7, 0, 1, 1, 0, 16, 106, 97, 118, 97, 47,
   108, 97, 110, 103, 47, 79, 98, 106, 101, 99, 116, 7, 0, 3, 1, 0, 1, 109, 1, 0, 3, 40, 41, 86,
   1, 0, 11, 65, 36, 36, 76, 97, 109, 98, 100, 97, 36, 49, 7, 0, 7, 1, 0, 14, 108, 97, 109, 98,
   100, 97, 70, 97, 99, 116, 111, 114, 121, 36, 1, 0, 6, 40, 74, 41, 76, 73, 59, 12, 0, 9, 0, 10,
   10, 0, 8, 0, 11, 1, 0, 4, 67, 111, 100, 101, 0, 33, 0, 2, 0, 4, 0, 0, 0, 0, 0, 1, 0, 8, 0, 5,
   0, 6, 0, 1, 0, 13, 0, 0, 0, 18, 0, 2, 0, 0, 0, 0, 0, 6, 9, 184, 0, 12, 87, 177, 0, 0, 0, 0, 0,
   0]

/-- The polyfill of the interface that the carrier has. -/
def carriedPolyfill : Bytes :=
  [202, 254, 186, 190, 0, 0, 0, 50, 0, 5, 1, 0, 4, 114, 47, 95, 73, 7, 0, 1, 1, 0, 16, 106, 97,
   118, 97, 47, 108, 97, 110, 103, 47, 79, 98, 106, 101, 99, 116, 7, 0, 3, 6, 1, 0, 2, 0, 4, 0, 0,
   0, 0, 0, 0, 0, 0]

/-- Only the first of two factories gets a replacement, and the carrier loses both. The call of
the second one is left. -/
theorem declares_or_escapes_overloaded : ∃ conventions old caller polyfill,
    polyfillsInR.conventions = .ok conventions
      ∧ ClassFile.parse carrierOfTwo = .ok old ∧ ClassFile.parse callOfSecond = .ok caller
      ∧ ClassFile.parse carriedPolyfill = .ok polyfill
      ∧ let classpath := ClassIndex.ofClasses [polyfill]
        let woven := weave conventions classpath [old, caller]
        ∃ new caller', woven.classes = [new, caller'] ∧ ∃ m ∈ caller'.methods,
          ∃ target ∈ calledFactories conventions caller' m, target.owner = old.name
            ∧ old.Declares target.name target.descriptor
            ∧ ¬ new.Declares target.name target.descriptor
            ∧ HasReplacementFactory conventions new
            ∧ Escapes (surroundings conventions classpath
                (phaseClasses prepare conventions classpath [old, caller]))
              woven.diagnostics caller'.name m new.name target.descriptor := by
  have hwoven : (do
      let conventions ← polyfillsInR.conventions.toOption
      let old ← (ClassFile.parse carrierOfTwo).toOption
      let caller ← (ClassFile.parse callOfSecond).toOption
      let polyfill ← (ClassFile.parse carriedPolyfill).toOption
      let classes := (weave conventions (ClassIndex.ofClasses [polyfill]) [old, caller]).classes
      let new ← classes[0]?
      let caller' ← classes[1]?
      return decide (classes.length = 2 ∧ ∃ m ∈ caller'.methods,
        ∃ target ∈ calledFactories conventions caller' m, target.owner = old.name
          ∧ old.Declares target.name target.descriptor
          ∧ ¬ new.Declares target.name target.descriptor)) = some true := by
    decide +kernel
  simp only [toOption_bind_eq_some] at hwoven
  obtain ⟨conventions, hconventions, old, hold, caller, hcaller, polyfill, hpolyfill, hclasses⟩ :=
    hwoven
  obtain ⟨new, hnew, hclasses⟩ := Option.bind_eq_some_iff.1 hclasses
  obtain ⟨caller', hcaller', hchecked⟩ := Option.bind_eq_some_iff.1 hclasses
  obtain ⟨hlength, m, hm, target, htarget, howner, hdeclares, hlost⟩ :=
    of_decide_eq_true (Option.some.inj hchecked)
  refine ⟨conventions, old, caller, polyfill, hconventions, hold, hcaller, hpolyfill, ?_⟩
  have hbatch : ∀ c ∈ [old, caller], ConstantPool.Reachable c.pool :=
    List.forall_mem_cons.2 ⟨reachable_of_parse hold,
      List.forall_mem_singleton.2 (reachable_of_parse hcaller)⟩
  -- The first outcome is ruled out by evaluation, so the call must be one that escapes.
  have hescapes := declares_or_escapes (i := 0) hconventions hbatch rfl hnew
    (List.mem_of_getElem? hcaller') hm htarget howner hdeclares
  obtain ⟨hcarrier, hescapes⟩ := hescapes.resolve_left hlost
  exact ⟨new, caller', eq_pair_of_getElem? hlength hnew hcaller', m, hm, target, htarget, howner,
    hdeclares, hlost, hcarrier, hescapes⟩

end Weave
end ClassLoom
