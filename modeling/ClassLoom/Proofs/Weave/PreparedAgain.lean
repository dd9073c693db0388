import ClassLoom.Proofs.Weave.AddedForwarders
import ClassLoom.Proofs.Weave.Steady

/-!
# Carriers and forwarders that are settled

What preparing and narrowing make of a class gives neither of them anything to do again, where the
same polyfills are seen. A narrowed carrier has nothing but a polyfill among its interfaces. A
carrier that is in want of a factory has been so before, and would have got one or been reported.

* `narrowCarrier_narrowCarrier`: narrowing is idempotent;
* `Plannable.of_origin`: a carrier in want of a factory has been so before.
-/

namespace ClassLoom.Weave

open ConstantPool
open Member (Rebodied)

/-- Whether the same classes have the same polyfills. -/
structure SamePolyfills (s s' : Surroundings) : Prop where
  conventions : s'.conventions = s.conventions
  polyfill? : s'.polyfill? = s.polyfill?

section Carriers

variable {s s' s₁ s₂ s₃ : Surroundings} {c old new : ClassFile}

theorem carrierPolyfill?_congr (h : SamePolyfills s s') (c : ClassFile) :
    carrierPolyfill? s' c = carrierPolyfill? s c := by
  unfold carrierPolyfill?
  rw [h.conventions, h.polyfill?]

/-- **A narrowed class is not narrowed again.** It has no old factory left, and its only interface
is the polyfill. -/
theorem narrowCarrier_narrowCarrier (h : SamePolyfills s s') (c : ClassFile) :
    narrowCarrier s' (narrowCarrier s c) = narrowCarrier s c := by
  rw [narrowCarrier_eq_self_iff]
  intro polyfill' hpolyfill'
  rcases narrowCarrier_cases s c with ⟨hsame, hnone⟩ | ⟨polyfill, hcarrier, _, _, hinterfaces⟩
  · rw [hsame, carrierPolyfill?_congr h] at hpolyfill'
    rw [hsame, h.conventions]
    exact hnone polyfill' hpolyfill'
  · -- Its first interface is a polyfill, which has none.
    obtain ⟨name, hhead, hfound⟩ := head_of_carrierPolyfill? hpolyfill'
    rw [hinterfaces] at hhead
    have hname := of_decide_eq_true (List.mem_filter.1 (List.mem_of_head? hhead)).2
    obtain ⟨_, _, hpolyfill⟩ := head_of_carrierPolyfill? hcarrier
    have hno := Surroundings.isPolyfill_of_polyfill? hfound
    rw [hname, h.conventions, Surroundings.isPolyfill_name hpolyfill] at hno
    cases hno

/-- A method that is found by its name, type and access is found with any body. -/
theorem find?_rebodied {p : Member → Bool} {ms ms' : List Member}
    (h : List.Forall₂ Rebodied ms ms') (hp : ∀ m m', Rebodied m m' → p m' = p m) :
    Option.Rel Rebodied (ms.find? p) (ms'.find? p) := by
  induction h with
  | nil => exact .none
  | @cons m m' ms ms' hfirst _ ih =>
    rw [List.find?_cons, List.find?_cons, hp m m' hfirst]
    cases p m with
    | true => exact .some hfirst
    | false => exact ih

/-- **A carrier in want of a factory has been so before**, if it has its fields still and the
methods that it has got besides are neither static nor constructors. -/
theorem Plannable.of_origin {conventions : Conventions} {params : List FieldType}
    (hname : new.name = c.name) (hfields : new.fields = c.fields)
    (hkeeps : KeepsMethods conventions c.name c.methods new.methods)
    (horigin : ∀ m ∈ new.methods, (∃ m₀ ∈ c.methods, Rebodied m₀ m)
      ∨ m.isStatic = false ∧ m.name ≠ Typing.constructorName)
    (h : Plannable conventions new params) : Plannable conventions c params where
  fresh m hm := by
    obtain ⟨m', hm', hsame⟩ := hkeeps.exists_of_mem hm
    rw [← hsame.name]
    exact h.fresh m' hm'
  factory := by
    obtain ⟨kept, added, hmethods, hkept, _⟩ := hkeeps
    obtain ⟨first, d, hfirst, hd, hparams⟩ := h.factory
    have hrel := find?_rebodied (p := fun m => m.name = conventions.lambdaFactory && m.isStatic)
      hkept fun m m' hsame => by rw [hsame.name, Member.isStatic, Member.isStatic, hsame.access]
    cases hfound : c.methods.find? fun m => m.name = conventions.lambdaFactory && m.isStatic with
    | none =>
      -- The first factory is static, so it has been there.
      have hp := List.find?_some hfirst
      rcases horigin first (List.mem_of_find?_eq_some hfirst) with ⟨m₀, hm₀, hsame⟩ | ⟨hstatic, _⟩
      · refine absurd ?_ (List.find?_eq_none.1 hfound m₀ hm₀)
        rwa [hsame.name, Member.isStatic, hsame.access] at hp
      · rw [hstatic, Bool.and_false] at hp
        cases hp
    | some m₀ =>
      -- Methods are kept in their order, and the ones that are added come last.
      rw [hfound] at hrel
      generalize hkept' : kept.find? _ = found at hrel
      cases hrel with
      | @some _ m' hsame =>
        rw [hmethods, List.find?_append, hkept', Option.some_or] at hfirst
        cases hfirst
        exact ⟨m₀, d, rfl, hsame.descriptor ▸ hd, hparams⟩
  source := by
    rcases h.source with hconstructor | ⟨hparams, f, hf, hstatic⟩
    · left
      obtain ⟨m, hm⟩ := Option.isSome_iff_exists.1 hconstructor
      have hp := List.find?_some hm
      rw [Bool.and_eq_true, decide_eq_true_iff, decide_eq_true_iff] at hp
      rcases horigin m (List.mem_of_find?_eq_some hm) with ⟨m₀, hm₀, hsame⟩ | ⟨_, hname⟩
      · refine List.find?_isSome.2 ⟨m₀, hm₀, ?_⟩
        rw [hsame.name, hsame.descriptor] at hp
        rw [Bool.and_eq_true, decide_eq_true_iff, decide_eq_true_iff]
        exact hp
      · exact absurd hp.1 hname
    · rw [instanceKey, hname, hfields] at hf
      exact .inr ⟨hparams, f, hf, hstatic⟩

/-- Where the methods of a class come from that is no prepared carrier, when its calls have been
redirected. -/
theorem origin_of_unprepared (hprepared : (prepareCarrier s old).1 = old) {m : Member}
    (hm : m ∈ (redirectCalls s₁ (prepare s old).1).1.methods) :
    (∃ m₀ ∈ old.methods, Rebodied m₀ m)
      ∨ m.isStatic = false ∧ ∃ f ∈ Forwarder.needed s (retypeAllLocals s old).1, m.name = f.name := by
  obtain ⟨m₁, hm₁, hredirected⟩ := exists_of_mem_right (redirectCalls_rebodied s₁ _) hm
  rw [prepare_fst, hprepared] at hm₁
  rcases mem_methods_addForwarders hm₁ with hretyped | ⟨f, hf, before, after, _, hmethod, _⟩
  · obtain ⟨m₀, hm₀, hsame⟩ := exists_of_mem_right (retypeAllLocals_rebodied s old) hretyped
    exact .inl ⟨m₀, hm₀, hsame.trans hredirected⟩
  · obtain ⟨_, rfl⟩ := Forwarder.eq_of_method hmethod
    refine .inr ⟨?_, f, hf, hredirected.name⟩
    rw [Member.isStatic, hredirected.access]
    exact (by decide : Access.has Access.publicFlag Access.staticFlag = false)

/-- A carrier about which nothing has been reported has got what was planned for it. A failure to
plan would have been reported. -/
theorem prepareCarrier_unreported (h : Unreported (prepare s c).2) : (prepareCarrier s c).2 = [] := by
  rw [prepare_snd] at h
  obtain ⟨hcarrier, _⟩ := unreported_append.1 (unreported_append.1 h).1
  unfold prepareCarrier at hcarrier ⊢
  split
  · rfl
  · next hpolyfill =>
    simp only [hpolyfill] at hcarrier
    split
    · rfl
    · rfl
    · next hrun =>
      rw [hrun] at hcarrier
      exact absurd rfl (hcarrier _ (List.mem_singleton_self _) _)

/-- A carrier that is narrowed keeps its new factory. -/
theorem exists_factory_of_narrowed
    (hfactory : s.conventions.replacementFactory ≠ s.conventions.lambdaFactory)
    (h : narrowCarrier s c ≠ c) :
    ∃ m ∈ (narrowCarrier s c).methods, m.name = s.conventions.replacementFactory := by
  rcases narrowCarrier_cases s c with ⟨hsame, _⟩ | ⟨polyfill, hpolyfill, hmem, hany, _⟩
  · exact absurd hsame h
  · obtain ⟨m, hm, hname⟩ := List.any_eq_true.1 hany
    have hname := of_decide_eq_true hname
    rw [narrowCarrier_prepared hpolyfill ⟨m, hm, hname⟩ hmem]
    exact ⟨m, List.mem_filter.2 ⟨hm, decide_eq_true (hname ▸ hfactory)⟩, hname⟩

/-- **A woven carrier gets no factory again.** It has the new factory, or there was none to be had
and still is none. -/
theorem of?_ne_some_again
    (hfactory : s.conventions.replacementFactory ≠ s.conventions.lambdaFactory)
    (h₂ : SamePolyfills s s₂) (h₃ : SamePolyfills s s₃)
    (hnames : ∀ f ∈ Forwarder.needed s (retypeAllLocals s old).1,
      f.name ≠ Typing.constructorName)
    (hreported : Unreported (prepare s old).2)
    (hnew : new = narrowCarrier s₂ (redirectCalls s₁ (prepare s old).1).1) {polyfill : Polyfill}
    (hcarrier : carrierPolyfill? s₃ new = some polyfill) (plan : FactoryPlan)
    (pool : ConstantPool) : FactoryPlan.of? s₃.conventions new new.pool ≠ .ok (some plan) pool := by
  intro hplan
  obtain ⟨params, _, hplannable, _⟩ := (plans_of_of? hplan).factory
  rw [h₃.conventions] at hplannable
  -- A class that has been narrowed has the factory, which no plan would add a second time.
  have hsame : new = (redirectCalls s₁ (prepare s old).1).1 := by
    rw [hnew]
    by_contra hnarrowed
    obtain ⟨m, hm, hname⟩ := exists_factory_of_narrowed (h₂.conventions ▸ hfactory) hnarrowed
    rw [← hnew] at hm
    rw [h₂.conventions] at hname
    exact hplannable.fresh m hm hname
  have hkeeps := keepsAll_prepareCarrier s₁ s old
  have honly := (prepared_onlyMethods s old).trans (redirectCalls_onlyMethods s₁ _)
  rw [← hsame] at hkeeps honly
  rcases prepareCarrier_cases s old with ⟨hprepared, hnone⟩ | ⟨found, plan', pool', _, hof, hcommit⟩
  · -- No factory has been planned, so none can be in want now.
    rw [hprepared] at hkeeps honly
    have hold : carrierPolyfill? s old = some polyfill := by
      rw [← hcarrier, carrierPolyfill?_congr h₃, carrierPolyfill?, carrierPolyfill?, honly.name,
        honly.interfaces]
    have hbefore : Plannable s.conventions old params := by
      refine hplannable.of_origin honly.name honly.fields hkeeps.methods fun m hm => ?_
      rw [hsame] at hm
      rcases origin_of_unprepared hprepared hm with hm₀ | ⟨hstatic, f, hf, hname⟩
      · exact .inl hm₀
      · exact .inr ⟨hstatic, hname ▸ hnames f hf⟩
    obtain ⟨plan', pool', hof⟩ :=
      (planned_iff hold).1 ⟨⟨params, hbefore⟩, prepareCarrier_unreported hreported⟩
    exact hnone polyfill hold plan' pool' hof
  · -- The factory that has been added is one that a new plan would collide with.
    obtain ⟨_, _, _, hmade⟩ := (plans_of_of? hof).factory
    have hmem : plan'.factory ∈ (prepareCarrier s old).1.methods := by
      rw [hcommit, methods_addInterface]
      exact List.mem_append_right _ (List.mem_singleton_self _)
    obtain ⟨m, hm, hrebodied⟩ := hkeeps.methods.exists_of_mem hmem
    refine hplannable.fresh m hm ?_
    rw [hrebodied.name, hmade]
    rfl

/-- The interfaces of a woven class are some that it had, and its polyfill if it is a carrier. No
other step gives a class an interface. -/
theorem mem_interfaces_woven {name : String}
    (h : name ∈ (narrowCarrier s₂ (redirectCalls s₁ (prepare s old).1).1).interfaces) :
    name ∈ old.interfaces
      ∨ ∃ polyfill, carrierPolyfill? s old = some polyfill ∧ name = polyfill.name := by
  -- Redirecting leaves the interfaces alone, and narrowing only takes some away.
  have hprepared : name ∈ (prepareCarrier s old).1.interfaces := by
    rw [← interfaces_redirectCalls_prepare s₁ s old]
    rcases narrowCarrier_cases s₂ (redirectCalls s₁ (prepare s old).1).1 with
      ⟨hsame, _⟩ | ⟨_, _, _, _, hinterfaces⟩
    · rwa [hsame] at h
    · rw [hinterfaces] at h
      exact List.mem_of_mem_filter h
  rcases prepareCarrier_cases s old with ⟨hsame, _⟩ | ⟨polyfill, plan, pool, hcarrier, _, hcommit⟩
  · rw [hsame] at hprepared
    exact .inl hprepared
  · rw [hcommit, addInterface] at hprepared
    split at hprepared
    · exact .inl hprepared
    · rcases List.mem_append.1 hprepared with hold | hnew
      · exact .inl hold
      · exact .inr ⟨polyfill, hcarrier, List.mem_singleton.1 hnew⟩

end Carriers

section Forwarders

variable {conventions : Conventions} {libraries batch : List ClassFile}

/-- Whether a carrier of `batch` has the polyfill `name`, which it implements once it is woven. -/
def Carried (s : Surroundings) (batch : List ClassFile) (name : String) : Prop :=
  ∃ c ∈ batch, ∃ polyfill ∈ carrierPolyfill? s c, name = polyfill.name

/-- **Interfaces that are gained are polyfills of carriers.** Narrowing leaves a carrier its
polyfill only, and no other class is narrowed. -/
theorem Declared.interfacesOf_woven (h : Declared conventions batch) (child : String) :
    ∀ name ∈ (Scope.ofBatch (weave conventions (.ofClasses libraries) batch).classes
        (.ofClasses libraries)).interfacesOf child,
      name ∈ (Scope.ofBatch batch (.ofClasses libraries)).interfacesOf child
        ∨ Carried (surroundings conventions (.ofClasses libraries) batch) batch name := by
  have hrelates : ClassIndex.Relates (fun stub stub' => stub'.name = stub.name
        ∧ ∀ name ∈ stub'.interfaces, name ∈ stub.interfaces
          ∨ Carried (surroundings conventions (.ofClasses libraries) batch) batch name)
      (.ofClasses batch) (.ofClasses (weave conventions (.ofClasses libraries) batch).classes) := by
    refine ClassIndex.relates_of_forall₂ (fun _ _ hrel => hrel.1) ?_
    have hkept := kept_weave conventions (.ofClasses libraries) batch
    have hinterfaces : List.Forall₂ (fun old new => ∀ name ∈ new.interfaces,
        name ∈ old.interfaces ∨ ∃ polyfill, carrierPolyfill?
          (surroundings conventions (.ofClasses libraries) batch) old = some polyfill
          ∧ name = polyfill.name)
        batch (weave conventions (.ofClasses libraries) batch).classes := by
      rw [weave_classes_eq_map, List.forall₂_map_right_iff, List.forall₂_same]
      exact fun _ _ _ => mem_interfaces_woven
    -- The stubs of a class before and after, side by side with what narrowing did to its
    -- interfaces.
    refine List.forall₂_iff_zip.2 ⟨hkept.length_eq, fun {old new} hmem => ?_⟩
    have hsame := (List.forall₂_iff_zip.1 hkept).2 hmem
    have hgained := (List.forall₂_iff_zip.1 hinterfaces).2 hmem
    obtain ⟨hold, hnew⟩ := List.of_mem_zip hmem
    obtain ⟨stub, hstub⟩ := h.stubs old hold
    obtain ⟨stub', hstub'⟩ := hsame.exists_stub
      (described_weave Scope.seesDescribed_ofBatch h.named h.described hnew) hstub
    refine ⟨stub, stub', hstub, hstub', (hsame.signatures hstub hstub').name, ?_⟩
    obtain ⟨_, _, _, _, rfl⟩ := ClassFile.stub_eq_ok.1 hstub
    obtain ⟨_, _, _, _, rfl⟩ := ClassFile.stub_eq_ok.1 hstub'
    intro name hname
    exact (hgained name hname).imp_right fun ⟨polyfill, hcarrier, hpolyfill⟩ =>
      ⟨old, hold, polyfill, hcarrier, hpolyfill⟩
  have hlookup := Scope.rel_lookup_ofBatch (fun stub => ⟨rfl, fun _ hname => .inl hname⟩)
    (hrelates.lookup child) (.ofClasses libraries)
  unfold Scope.interfacesOf
  generalize Scope.lookup _ child = found at hlookup ⊢
  generalize Scope.lookup _ child = found' at hlookup ⊢
  cases hlookup with
  | none => nofun
  | some hrel => exact hrel.2

/-- Methods without bodies have none of the names that weaving gives, in what can be seen. -/
theorem Steady.name_of_isAbstract (h : Steady conventions libraries batch) {name : String}
    {stub : ClassStub}
    (hstub : (Scope.ofBatch batch (.ofClasses libraries)).lookup name = some stub)
    {m : MethodStub} (hm : m ∈ stub.methods) (habstract : m.isAbstract = true) :
    m.name ∉ [conventions.lambdaFactory, conventions.replacementFactory,
      Typing.constructorName] := by
  obtain ⟨c, hc, _, hc'⟩ := Scope.exists_class_of_lookup hstub
  obtain ⟨m', hm', haccess, hname⟩ := ClassFile.exists_of_mem_stub hc' hm
  rw [MethodStub.isAbstract, ← haccess] at habstract
  rw [← hname]
  exact h.names c hc m' hm' habstract

/-- Nor have the forwarders that a class needs. -/
theorem Steady.name_of_mem_needed (h : Steady conventions libraries batch) {c : ClassFile}
    {f : Forwarder} (hf : f ∈ Forwarder.needed
      (surroundings conventions (.ofClasses libraries) batch) c) :
    f.name ≠ Typing.constructorName := by
  obtain ⟨⟨_, _, ⟨_, hstub, m, hm, habstract, _, hname, _⟩, _⟩, _, _⟩ :=
    mem_keys_needed_iff.1 (List.mem_map_of_mem hf)
  have hnames := h.name_of_isAbstract hstub hm habstract
  simp only [List.mem_cons, List.not_mem_nil, or_false, not_or] at hnames
  exact hname ▸ hnames.2.2

/-- **A woven class needs no forwarders.** What it lacked it has got, and what it gained offers
nothing. -/
theorem Steady.needed_woven (h : Steady conventions libraries batch) {new : ClassFile}
    (hnew : new ∈ (weave conventions (.ofClasses libraries) batch).classes)
    (hclass : new.isInterface = false) :
    Forwarder.needed (surroundings conventions (.ofClasses libraries)
      (weave conventions (.ofClasses libraries) batch).classes) new = [] := by
  have hkeeps := (h.keeps_woven libraries).1
  rw [List.eq_nil_iff_forall_not_mem]
  intro f hf
  obtain ⟨⟨interfaceName, hinterface, ⟨stub, hstub, m, hm, habstract, hstatic, hname, hdescriptor⟩,
    hcompanion⟩, hundeclared, huninherited⟩ := mem_keys_needed_iff.1 (List.mem_map_of_mem hf)
  rw [← hname, ← hdescriptor] at hcompanion hundeclared huninherited
  obtain ⟨old, hold, hsignatures⟩ := hkeeps.exists_lookup hstub
  have hnames := h.name_of_isAbstract hold (hsignatures.mem_of_isAbstract hm habstract) habstract
  simp only [List.mem_cons, List.not_mem_nil, or_false, not_or] at hnames
  obtain ⟨hfactory, hreplacement, _⟩ := hnames
  -- What is offered in the end has been offered before, by an interface of the old class or by one
  -- that was gained.
  rcases exists_mem_ofInterface hkeeps Scope.named_ofBatch hstub hm habstract hstatic hcompanion
    with ⟨g, hg, hgname, hgdescriptor⟩ | ⟨_, hsame⟩
  · rcases Scope.mem_interfaceClosure_of_gained hkeeps Scope.named_ofBatch
      h.interfacesOf_woven hinterface with
      hbefore | ⟨other, ⟨c, hc, polyfill, hcarrier, rfl⟩, hgained⟩
    · -- The class has got the forwarder, or has need of none.
      rcases declares_or_reported_weave hnew hclass hbefore hg with
        hdeclares | ⟨_, hlost⟩ | hinherits | ⟨message, hreported⟩
      · rw [hgname, hgdescriptor] at hdeclares
        exact hundeclared hdeclares
      · exact hfactory (hgname.symm.trans hlost)
      · rw [hgname, hgdescriptor] at hinherits
        rcases inheritsBody_or_isLambdaCarrier hkeeps hinherits with hafter | ⟨_, _, _, hlost⟩
        · exact huninherited hafter
        · exact hfactory hlost
      · exact h.reported _ hreported message rfl
    · have hnone := h.defaults c hc polyfill hcarrier interfaceName (List.mem_cons.2 hgained)
      exact absurd (hnone ▸ hg : g ∈ []) List.not_mem_nil
  · exact hreplacement hsame

end Forwarders

end ClassLoom.Weave
