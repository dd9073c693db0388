import ClassLoom.Proofs.Scope.DeclaringClass
import ClassLoom.Proofs.Weave.BatchOrder
import ClassLoom.Proofs.Weave.OfferedMethods
import ClassLoom.Proofs.Weave.PhaseScopes
import ClassLoom.Proofs.Weave.RedirectedAgain
import ClassLoom.Proofs.Weave.RetypedAgain

/-!
# Steady batches

Weaving can give itself more to do: a polyfill can inherit a method from a class that has a
polyfill, and a lambda carrier can get an interface with default methods. A batch is `Steady` if
nothing of this kind is in it or behind it, and its code is such as compilers write. What is seen
when its calls are redirected and what is seen in the end then agree about every call.

* `Steady.free`, `Steady.lineage_free`: what carriers and polyfills are apart from;
* `Steady.agrees`: calls in the prepared batch and in the woven one.
-/

namespace ClassLoom

open ConstantPool
open Redirection

/-- A static method that is found in a class is one of its methods. -/
theorem ClassStub.exists_of_isStatic_method? {stub : ClassStub} {name descriptor : String}
    (h : ((stub.method? name descriptor).map (·.isStatic)).getD false = true) :
    ∃ m ∈ stub.methods, m.name = name := by
  cases hfound : stub.method? name descriptor with
  | none =>
    rw [hfound] at h
    cases h
  | some m =>
    have hname := List.find?_some hfound
    rw [Bool.and_eq_true, decide_eq_true_iff] at hname
    exact ⟨m, List.mem_of_find?_eq_some hfound, hname.1⟩

/-- The methods of a stub are those of the class. -/
theorem ClassFile.exists_of_mem_stub {c : ClassFile} {stub : ClassStub} (h : c.stub = .ok stub)
    {m : MethodStub} (hm : m ∈ stub.methods) :
    ∃ m' ∈ c.methods, m'.access = m.access ∧ m'.name = m.name := by
  obtain ⟨_, _, _, hmethods, rfl⟩ := ClassFile.stub_eq_ok.1 h
  obtain ⟨m', hm', hof⟩ := exists_of_mem_right hmethods hm
  obtain ⟨_, _, rfl⟩ := MethodStub.ofMember_eq_ok.1 hof
  exact ⟨m', hm', rfl, rfl⟩

namespace Scope

variable {scope : Scope} {name : String}

/-- What cannot be seen has no lineage. -/
theorem lineage_eq_nil (h : scope.lookup name = none) : scope.lineage name = [] := by
  have hsupers : scope.superclasses name = [] := by
    rw [superclasses, chainFrom, h]
  rw [lineage, interfaceClosure, hsupers]
  rfl

/-- A class that declares a method does so for itself. -/
theorem declaringClass_eq_self (hnamed : scope.Named) {stub : ClassStub}
    (h : scope.lookup name = some stub) {method descriptor : String}
    (hdeclares : stub.Declares method descriptor) :
    scope.declaringClass name method descriptor = name := by
  obtain ⟨behind, hsupers⟩ := exists_superclasses_eq_cons h
  have hdeclared : scope.DeclaredBy name method descriptor stub.name :=
    .superclass (hsupers.trans (List.nil_append _).symm) nofun hdeclares
  rw [hnamed name stub h] at hdeclared
  exact hdeclared.eq.symm

/-- A method is declared in the class itself, or somewhere in its lineage. It may be the class
itself because nothing else declares it. -/
theorem declaringClass_eq_or_mem (hnamed : scope.Named) (name method descriptor : String) :
    scope.declaringClass name method descriptor = name
      ∨ scope.declaringClass name method descriptor ∈ scope.lineage name := by
  have hdeclared := scope.declaredBy_declaringClass name method descriptor
  generalize scope.declaringClass name method descriptor = declarer at hdeclared ⊢
  cases hdeclared with
  | @superclass before behind stub hsplit _ _ =>
    refine .inr (List.mem_append_left _ (List.mem_map_of_mem ?_))
    rw [hsplit]
    exact List.mem_append_right _ (List.mem_cons_self ..)
  | @interface before behind name stub _ hsplit _ hlookup _ =>
    refine .inr (List.mem_append_right _ ?_)
    rw [hnamed name stub hlookup, hsplit]
    exact List.mem_append_right _ (List.mem_cons_self ..)
  | unknown => exact .inl rfl

/-- A class that can be seen of a batch and its libraries is one of them. -/
theorem exists_class_of_lookup {batch libraries : List ClassFile} {stub : ClassStub}
    (h : (ofBatch batch (.ofClasses libraries)).lookup name = some stub) :
    ∃ c ∈ batch ++ libraries, c.name = name ∧ c.stub = .ok stub := by
  obtain ⟨hname, c, hc, hstub⟩ := exists_of_lookup_ofBatch h
  obtain ⟨_, _, _, _, rfl⟩ := ClassFile.stub_eq_ok.1 hstub
  exact ⟨c, hc, hname, hstub⟩

end Scope

namespace Weave

/-- The instructions of a method, if they can be read. A method without a body has none. -/
def instructions? (pool : ConstantPool) (m : Member) : Option (List (Nat × Instruction)) :=
  match m.code? pool with
  | .ok (some code) => (Instruction.decode code.bytecode).toOption
  | .ok none => some []
  | .error _ => none

/-- Factories return what they make. -/
theorem text_factoryDescriptor_ne (owner : String) (d : MethodDescriptor) :
    (CallPlan.factoryDescriptor owner d).text ≠ "()V" := by
  intro h
  have hlast := congrArg (fun text => text.toList.getLast?) h
  rw [← CallPlan.text_factoryDescriptor] at hlast
  simp only [String.toList_append] at hlast
  rw [List.getLast?_append, show ";".toList.getLast? = some ';' from rfl, Option.some_or] at hlast
  exact absurd hlast (by decide)

/-- A class that declares a static method does so for itself. -/
theorem declaring_of_declaresStatic {s : Surroundings} (hnamed : s.scope.Named)
    {owner name descriptor : String} (h : declaresStatic s owner name descriptor = true) :
    s.scope.declaringClass owner name descriptor = owner := by
  obtain ⟨stub, hstub, hstatic⟩ := declaresStatic_eq_true_iff.1 h
  refine Scope.declaringClass_eq_self hnamed hstub (ClassStub.isSome_method?_iff.1 ?_)
  rw [Option.isSome_iff_ne_none]
  intro hnone
  rw [hnone] at hstatic
  cases hstatic

/-- Whether a class may have a method that takes the place of an old factory. -/
def MayHaveFactory (conventions : Conventions) (c : ClassFile) : Prop :=
  conventions.isLambdaCarrier c.name = true
    ∨ ∃ m ∈ c.methods, m.name = conventions.replacementFactory

/-- Whether weaving a batch leaves nothing to be done. -/
structure Steady (conventions : Conventions) (libraries batch : List ClassFile) : Prop
    extends Declared conventions batch where
  /-- No class has a lambda carrier above it. -/
  apart : ∀ c ∈ batch ++ libraries,
    ∀ name ∈ (Scope.ofBatch batch (.ofClasses libraries)).lineage c.name,
      conventions.isLambdaCarrier name = true → name = c.name
  /-- A polyfill inherits nothing from a class that has one. -/
  inherited : ∀ c ∈ batch ++ libraries, conventions.isPolyfill c.name = true →
    ∀ name ∈ (Scope.ofBatch batch (.ofClasses libraries)).lineage c.name,
      (surroundings conventions (.ofClasses libraries) batch).polyfill? name = none
  /-- Classes with new factories neither have polyfills nor are any. -/
  factories : ∀ c ∈ batch ++ libraries, MayHaveFactory conventions c →
    (surroundings conventions (.ofClasses libraries) batch).polyfill? c.name = none
      ∧ conventions.isPolyfill c.name = false
  /-- The interfaces that carriers get have no default methods. -/
  defaults : ∀ c ∈ batch,
    ∀ polyfill ∈ carrierPolyfill? (surroundings conventions (.ofClasses libraries) batch) c,
    ∀ name ∈ polyfill.name
        :: (Scope.ofBatch batch (.ofClasses libraries)).interfaceClosure polyfill.name,
      Forwarder.ofInterface (surroundings conventions (.ofClasses libraries) batch) name = []
  /-- Methods without bodies have none of the names of factories and constructors. -/
  names : ∀ c ∈ batch ++ libraries, ∀ m ∈ c.methods,
    Access.has m.access Access.abstractFlag = true →
      m.name ∉ [conventions.lambdaFactory, conventions.replacementFactory, Typing.constructorName]
  /-- All that is to be done can be done. -/
  reported : Unreported (weave conventions (.ofClasses libraries) batch).diagnostics
  /-- The bodies of prepared classes can be read, and are of the kind that compilers write. -/
  regular : ∀ c ∈ preparedClasses conventions libraries batch, ∀ m ∈ c.methods,
    ∃ body ∈ instructions? c.pool m, Regular conventions c.pool body

instance (conventions : Conventions) (c : ClassFile) : Decidable (MayHaveFactory conventions c) :=
  inferInstanceAs (Decidable (_ ∨ _))

instance (conventions : Conventions) (libraries batch : List ClassFile) :
    Decidable (Steady conventions libraries batch) :=
  decidable_of_iff (Declared conventions batch ∧ _ ∧ _ ∧ _ ∧ _ ∧ _ ∧ _ ∧ _)
    ⟨fun ⟨hdeclared, hapart, hinherited, hfactories, hdefaults, hnames, hreported, hregular⟩ =>
      ⟨hdeclared, hapart, hinherited, hfactories, hdefaults, hnames, hreported, hregular⟩,
    fun h => ⟨h.toDeclared, h.apart, h.inherited, h.factories, h.defaults, h.names, h.reported,
      h.regular⟩⟩

namespace Steady

variable {conventions : Conventions} {libraries batch : List ClassFile} {name : String}

section Lineages

/-- No carrier is above a class that is none. What is above it is listed in the batch, which has
been asked for that. -/
theorem free (h : Steady conventions libraries batch)
    (hname : conventions.isLambdaCarrier name = false) :
    ∀ other ∈ (Scope.ofBatch batch (.ofClasses libraries)).lineage name,
      conventions.isLambdaCarrier other = false := by
  intro other hother
  cases hlookup : (Scope.ofBatch batch (.ofClasses libraries)).lookup name with
  | none =>
    rw [Scope.lineage_eq_nil hlookup] at hother
    cases hother
  | some stub =>
    obtain ⟨c, hc, rfl, _⟩ := Scope.exists_class_of_lookup hlookup
    rw [Bool.eq_false_iff]
    intro hcarrier
    rw [h.apart c hc other hother hcarrier, hname] at hcarrier
    cases hcarrier

/-- Above a polyfill there are no carriers, and no classes with polyfills. Polyfills are no
carriers, as carriers may have factories. -/
theorem lineage_free (h : Steady conventions libraries batch)
    (hname : conventions.isPolyfill name = true) :
    ∀ other ∈ (Scope.ofBatch batch (.ofClasses libraries)).lineage name,
      conventions.isLambdaCarrier other = false
        ∧ (surroundings conventions (.ofClasses libraries) batch).polyfill? other = none := by
  intro other hother
  cases hlookup : (Scope.ofBatch batch (.ofClasses libraries)).lookup name with
  | none =>
    rw [Scope.lineage_eq_nil hlookup] at hother
    cases hother
  | some stub =>
    obtain ⟨c, hc, rfl, _⟩ := Scope.exists_class_of_lookup hlookup
    refine ⟨h.free (Bool.eq_false_iff.2 fun hcarrier => ?_) other hother,
      h.inherited c hc hname other hother⟩
    have hnone := (h.factories c hc (.inl hcarrier)).2
    rw [hname] at hnone
    cases hnone

/-- What is above a class that has no carrier above it, when calls are redirected. -/
theorem lineage_prepared (h : Steady conventions libraries batch)
    (hfree : ∀ other ∈ (Scope.ofBatch batch (.ofClasses libraries)).lineage name,
      conventions.isLambdaCarrier other = false) :
    (Scope.ofBatch (preparedClasses conventions libraries batch) (.ofClasses libraries)).lineage name
      = (Scope.ofBatch batch (.ofClasses libraries)).lineage name :=
  (h.keeps_prepared libraries).1.lineage_eq Scope.named_ofBatch hfree

end Lineages

/-! ## Calls in the prepared batch and in the woven one

Calls are redirected by what can be seen after the first phase. Weaving again looks at the woven
batch, in which carriers have lost old factories and have their polyfills as interfaces. Neither
gives a call a rule that it did not have, under the conditions of `Steady`. -/

section Calls

variable {s s₁ s₃ : Surroundings} {settings : Settings} {opcode : UInt8} {target : MemberRef}
  {callee : Invocation}

/-- A class that has a new factory when its calls are redirected neither has a polyfill nor is
one. -/
theorem not_polyfill_of_factory (h : Steady conventions libraries batch)
    (hs₁ : s₁ = surroundings conventions (.ofClasses libraries)
      (preparedClasses conventions libraries batch)) {descriptor : String}
    (hdescriptor : descriptor ≠ "()V")
    (hdeclared : declaresStatic s₁ name s₁.conventions.replacementFactory descriptor = true) :
    s₁.polyfill? name = none ∧ s₁.conventions.isPolyfill name = false := by
  subst hs₁
  obtain ⟨stub, hstub, hstatic⟩ := declaresStatic_eq_true_iff.1 hdeclared
  obtain ⟨old, hold, hkeeps⟩ := (h.keeps_prepared libraries).1.exists_lookup hstub
  obtain ⟨c, hc, rfl, hc'⟩ := Scope.exists_class_of_lookup hold
  rw [(h.keeps_prepared libraries).2]
  refine h.factories c hc ?_
  rcases hkeeps.isStatic_or_isLambdaCarrier hdescriptor hstatic with hstatic | ⟨hcarrier, _⟩
  · obtain ⟨m, hm, hname⟩ := ClassStub.exists_of_isStatic_method? hstatic
    obtain ⟨m', hm', _, hsame⟩ := ClassFile.exists_of_mem_stub hc' hm
    exact .inr ⟨m', hm', hsame.trans hname⟩
  · rw [ClassIndex.name_of_stub hc'] at hcarrier
    exact .inl hcarrier

section Woven

variable (hs₁ : s₁ = surroundings conventions (.ofClasses libraries)
    (preparedClasses conventions libraries batch))
  (hs₃ : s₃ = surroundings conventions (.ofClasses libraries)
    (weave conventions (.ofClasses libraries) batch).classes)

include hs₁ hs₃

theorem polyfill?_woven (h : Steady conventions libraries batch) : s₃.polyfill? = s₁.polyfill? := by
  subst hs₁ hs₃
  funext name
  rw [(h.keeps_woven libraries).2, (h.keeps_prepared libraries).2]

/-- New factories are seen in the end where they are seen when calls are redirected. Narrowing
removes methods by the old name only. -/
theorem declaresStatic_woven (hsettings : settings.conventions = .ok conventions)
    (h : Steady conventions libraries batch) (owner descriptor : String) :
    declaresStatic s₃ owner s₃.conventions.replacementFactory descriptor
      = declaresStatic s₁ owner s₁.conventions.replacementFactory descriptor := by
  subst hs₁ hs₃
  have hlookup := (h.narrowed_woven libraries).lookup owner
  unfold declaresStatic surroundings
  simp only
  generalize Scope.lookup _ owner = found at hlookup ⊢
  generalize Scope.lookup _ owner = found' at hlookup ⊢
  cases hlookup with
  | none => rfl
  | some hnarrows =>
    rw [Option.bind_some, Option.bind_some,
      hnarrows.method? (Settings.replacementFactory_ne hsettings)]

/-- **Calls on polyfills and on their companions have no rule** in the end. No rule is for a
polyfill, nor for what it inherits from. -/
theorem not_goesTo_of_isPolyfill (hsettings : settings.conventions = .ok conventions)
    (h : Steady conventions libraries batch) (howner : conventions.isPolyfill target.owner = true) :
    ¬ GoesTo s₃ opcode target callee := by
  have hfree := h.lineage_free howner
  -- Neither the polyfill nor what it inherits from has a polyfill.
  have hnone : ∀ polyfill, s₃.polyfill? (CallPlan.declaring s₃ target) ≠ some polyfill := by
    intro polyfill hpolyfill
    subst hs₃
    have hlineage := (h.keeps_woven libraries).1.lineage_eq Scope.named_ofBatch
      fun other hother => (hfree other hother).1
    have hnamed : (Scope.ofBatch (weave conventions (.ofClasses libraries) batch).classes
      (.ofClasses libraries)).Named := Scope.named_ofBatch
    rcases Scope.declaringClass_eq_or_mem hnamed target.owner target.name target.descriptor with
      hsame | hmem
    · rw [CallPlan.declaring, surroundings, hsame] at hpolyfill
      have hno := Surroundings.isPolyfill_of_polyfill? hpolyfill
      exact absurd howner (Bool.eq_false_iff.1 hno)
    · rw [hlineage] at hmem
      rw [(h.keeps_woven libraries).2] at hpolyfill
      cases (hfree _ hmem).2.symm.trans hpolyfill
  intro hgoes
  cases hgoes with
  | factory d hd hfactory hdeclared =>
    rw [declaresStatic_woven hs₁ hs₃ hsettings h] at hdeclared
    have hno := (h.not_polyfill_of_factory hs₁ (text_factoryDescriptor_ne target.owner d)
      hdeclared).2
    subst hs₁
    exact absurd howner (Bool.eq_false_iff.1 hno)
  | mixin d hd polyfill _ hpolyfill => exact hnone polyfill hpolyfill
  | replacement d hd polyfill _ hpolyfill => exact hnone polyfill hpolyfill

/-- A method of a class without carriers above it is declared where it was. -/
theorem declaring_woven (h : Steady conventions libraries batch)
    (howner : conventions.isLambdaCarrier target.owner = false) :
    CallPlan.declaring s₃ target = CallPlan.declaring s₁ target := by
  have hfree := h.free howner
  rw [← h.lineage_prepared hfree] at hfree
  subst hs₁ hs₃
  exact (h.narrowed_woven libraries).declaringClass_eq hfree target.name target.descriptor

/-- Mixins have the static methods that they had. None of the classes above a mixin is a carrier.
This is what a call that goes to a mixin depends on. -/
theorem findsStatic_woven (h : Steady conventions libraries batch) {polyfill : Polyfill}
    (hpolyfill : s₁.polyfill? name = some polyfill) (method descriptor : String) :
    findsStatic s₃ polyfill.name method descriptor
      = findsStatic s₁ polyfill.name method descriptor := by
  have hname : conventions.isPolyfill polyfill.name = true := by
    subst hs₁
    exact Surroundings.isPolyfill_name hpolyfill
  have hfree := fun other hother => (h.lineage_free hname other hother).1
  rw [← h.lineage_prepared hfree] at hfree
  subst hs₁ hs₃
  exact congrArg (fun found => (Option.map (fun x => x.2.isStatic) found).getD false)
    ((h.narrowed_woven libraries).findMethod_eq hfree method descriptor)

/-- A call that has a rule in the end had one when calls were redirected, but for other calls on
carriers than those of their old factories. -/
theorem goesTo_of_woven (hsettings : settings.conventions = .ok conventions)
    (h : Steady conventions libraries batch)
    (hcarrier : s₁.conventions.isLambdaCarrier target.owner = true →
      CallPlan.isFactoryCall s₁ opcode target = true) (hgoes : GoesTo s₃ opcode target callee) :
    ∃ callee, GoesTo s₁ opcode target callee := by
  have hconventions : s₃.conventions = s₁.conventions := by rw [hs₁, hs₃, surroundings, surroundings]
  have hsame : CallPlan.isFactoryCall s₃ opcode target
      = CallPlan.isFactoryCall s₁ opcode target := by
    rw [CallPlan.isFactoryCall, CallPlan.isFactoryCall, hconventions]
  have howner (hfactory : CallPlan.isFactoryCall s₃ opcode target = false) :
      conventions.isLambdaCarrier target.owner = false := by
    rw [Bool.eq_false_iff]
    intro htrue
    subst hs₁
    rw [hsame, hcarrier htrue] at hfactory
    cases hfactory
  -- One rule after the other. Each asks the scope for names that weaving has left as they were.
  cases hgoes with
  | factory d hd hfactory hdeclared =>
    rw [declaresStatic_woven hs₁ hs₃ hsettings h] at hdeclared
    exact ⟨_, .factory d hd (hsame ▸ hfactory) hdeclared⟩
  | mixin d hd polyfill hfactory hpolyfill hkind hfound =>
    rw [h.polyfill?_woven hs₁ hs₃, h.declaring_woven hs₁ hs₃ (howner hfactory)] at hpolyfill
    have hcallee : mixinCallee s₃ opcode target polyfill d
        = mixinCallee s₁ opcode target polyfill d := by
      unfold mixinCallee CallPlan.mixinDescriptor
      rw [Surroundings.substituteAll_congr (h.polyfill?_woven hs₁ hs₃),
        h.declaring_woven hs₁ hs₃ (howner hfactory)]
    rw [hcallee, h.findsStatic_woven hs₁ hs₃ hpolyfill] at hfound
    exact ⟨_, .mixin d hd polyfill (hsame ▸ hfactory) hpolyfill hkind hfound⟩
  | replacement d hd polyfill hfactory hpolyfill hkind =>
    rw [h.polyfill?_woven hs₁ hs₃, h.declaring_woven hs₁ hs₃ (howner hfactory)] at hpolyfill
    exact ⟨_, .replacement d hd polyfill (hsame ▸ hfactory) hpolyfill hkind⟩

/-- **Where a call goes, it has no rule** in the end. Calls of new factories and of polyfills are
all that there are. -/
theorem not_goesTo_again (hsettings : settings.conventions = .ok conventions)
    (h : Steady conventions libraries batch) (hgoes : GoesTo s₁ opcode target callee)
    {target' : MemberRef} (howner : target'.owner = callee.owner)
    (hname : target'.name = callee.name) (hdescriptor : target'.descriptor = callee.descriptor)
    {callee' : Invocation} : ¬ GoesTo s₃ callee.opcode target' callee' := by
  have hpolyfillName {name : String} {polyfill : Polyfill}
      (hpolyfill : s₁.polyfill? name = some polyfill) :
      conventions.isPolyfill polyfill.name = true := by
    subst hs₁
    exact Surroundings.isPolyfill_name hpolyfill
  -- By the rule that the call has gone by: to a factory, to a mixin, or to a replacement.
  cases hgoes with
  | factory d hd hfactory hdeclared =>
    have hnone := (h.not_polyfill_of_factory hs₁ (text_factoryDescriptor_ne target.owner d)
      hdeclared).1
    have hdeclaring : CallPlan.declaring s₃ target' = target.owner := by
      rw [← declaresStatic_woven hs₁ hs₃ hsettings h] at hdeclared
      rw [CallPlan.declaring, howner, hname, hdescriptor]
      subst hs₁ hs₃
      exact declaring_of_declaresStatic Scope.named_ofBatch hdeclared
    have hpolyfill (polyfill : Polyfill) :
        s₃.polyfill? (CallPlan.declaring s₃ target') ≠ some polyfill := by
      rw [hdeclaring, h.polyfill?_woven hs₁ hs₃, hnone]
      nofun
    intro hagain
    cases hagain with
    | factory d' hd' hfactory' hdeclared' =>
      rw [CallPlan.isFactoryCall, hname, Bool.and_eq_true, decide_eq_true_iff,
        decide_eq_true_iff] at hfactory'
      subst hs₁ hs₃
      exact Settings.replacementFactory_ne hsettings hfactory'.2
    | mixin d' hd' polyfill _ hfound => exact hpolyfill polyfill hfound
    | replacement d' hd' polyfill _ hfound => exact hpolyfill polyfill hfound
  | mixin d hd polyfill hfactory hpolyfill hkind hfound =>
    refine h.not_goesTo_of_isPolyfill hs₁ hs₃ hsettings ?_
    rw [howner]
    exact hpolyfillName hpolyfill
  | replacement d hd polyfill hfactory hpolyfill hkind =>
    refine h.not_goesTo_of_isPolyfill hs₁ hs₃ hsettings ?_
    rw [howner, replacementCallee]
    simp only
    split
    · subst hs₁
      exact Conventions.isPolyfill_companionName (hpolyfillName hpolyfill)
    · exact hpolyfillName hpolyfill

/-- **What is seen in the end agrees** with what is seen when calls are redirected. -/
theorem agrees (hsettings : settings.conventions = .ok conventions)
    (h : Steady conventions libraries batch) : Agrees s₁ s₃ where
  polyfill? name := congrFun (h.polyfill?_woven hs₁ hs₃) name
  kept _ _ _ hcarrier hgoes := h.goesTo_of_woven hs₁ hs₃ hsettings hcarrier hgoes
  gone _ _ _ hgoes _ howner hname hdescriptor _ :=
    h.not_goesTo_again hs₁ hs₃ hsettings hgoes howner hname hdescriptor

end Woven
end Calls

end Steady
end Weave
end ClassLoom
