import ClassLoom.Proofs.Weave.FactoryCalls
import ClassLoom.Proofs.Weave.PassedOver
import ClassLoom.Proofs.Weave.WovenScope

/-!
# Batches that weaving does not touch

Where no polyfill, no factory that could take the place of another one and no companion can be
seen (`Inert`), weaving gives every class back as it was, down to its constant pool. What it
reports is that methods could not be read: their bodies are read all the same.

A companion counts for every class that is listed as an interface, also for one that is none:
forwarders are computed from the lists, and nothing asks for the flag
(`forwards_to_companion_of_class`).

* `weave_untouched`: weaving gives an inert batch back.
-/

namespace ClassLoom

/-! ## Listed interfaces

Companions are looked for by the names of interfaces, and an interface is whatever a class lists as
one. That it is marked as an interface is not asked. -/

namespace Scope

/-- Whether a class that can be seen has `name` in its list of interfaces. -/
def Lists (scope : Scope) (name : String) : Prop :=
  ∃ child stub, scope.lookup child = some stub ∧ name ∈ stub.interfaces

variable {scope : Scope}

/-- What the interfaces in a frontier lead to is listed if they are. Whatever the walk comes to,
some interface lists it. -/
theorem lists_of_mem_closureFrom {fuel : Nat} {seen frontier : List String} {name : String}
    (hfrontier : ∀ i ∈ frontier, scope.Lists i) (h : name ∈ scope.closureFrom fuel seen frontier) :
    scope.Lists name := by
  induction fuel generalizing seen frontier with
  | zero => cases h
  | succ fuel ih =>
    unfold closureFrom at h
    split at h
    · cases h
    · rcases List.mem_append.1 h with h | h
      · rw [List.mem_eraseDups] at h
        exact hfrontier name (List.mem_filter.1 h).1
      · refine ih (fun i hi => ?_) h
        obtain ⟨parent, _, hi⟩ := List.mem_flatMap.1 hi
        unfold interfacesOf at hi
        split at hi
        · next stub hstub => exact ⟨parent, stub, hstub, hi⟩
        · cases hi

/-- Every interface of a class is listed by some class. -/
theorem lists_of_mem_interfaceClosure {name i : String} (h : i ∈ scope.interfaceClosure name) :
    scope.Lists i := by
  refine lists_of_mem_closureFrom (fun i hi => ?_) h
  obtain ⟨stub, hstub, hi⟩ := List.mem_flatMap.1 hi
  obtain ⟨child, hchild⟩ := exists_lookup_of_mem_chainFrom hstub
  exact ⟨child, stub, hchild, hi⟩

end Scope

namespace Weave

open Redirection

/-! ## Nothing to weave

There are three things that a class could be sent to: a polyfill, a factory, and a companion. A
batch is inert where none of them can be seen, which is said of the scope and not of the classes to
be woven. -/

/-- Whether nothing can be seen that a class could be sent to. -/
structure Inert (s : Surroundings) : Prop where
  /-- No class lies in the namespace of polyfills. -/
  polyfills : ∀ name stub, s.scope.lookup name = some stub →
    s.conventions.isPolyfill name = false
  /-- No class declares a method that would take the place of a factory. -/
  factories : ∀ name stub, s.scope.lookup name = some stub →
    ∀ m ∈ stub.methods, m.name ≠ s.conventions.replacementFactory
  /-- No class is the companion of a class that is listed as an interface. -/
  companions : ∀ name stub, s.scope.lookup name = some stub → s.scope.Lists name →
    s.scope.lookup (s.conventions.companionName name) = none

section Steps

variable {s : Surroundings}

/-- Then no class has a polyfill. -/
theorem Inert.polyfill? (h : Inert s) (name : String) : s.polyfill? name = none := by
  unfold Surroundings.polyfill?
  split
  · rfl
  · rw [Option.map_eq_none_iff]
    cases hlookup : s.scope.lookup (s.conventions.polyfillName name) with
    | none => rfl
    | some stub =>
      have hnone := h.polyfills _ stub hlookup
      rw [Conventions.isPolyfill_polyfillName] at hnone
      cases hnone

/-- No carrier has a polyfill among its interfaces. -/
theorem Inert.carrierPolyfill? (h : Inert s) (c : ClassFile) :
    Weave.carrierPolyfill? s c = none := by
  unfold Weave.carrierPolyfill?
  split
  · rfl
  · cases c.interfaces.head? with
    | none => rfl
    | some name => simp only [h.polyfill? name, Option.bind_eq_bind, Option.bind_some,
        Option.bind_none]

/-- No class needs a forwarder. A forwarder would need a companion that can be seen. -/
theorem Inert.needed (h : Inert s) (c : ClassFile) : Forwarder.needed s c = [] := by
  have hnone : (s.scope.interfaceClosure c.name).flatMap (Forwarder.ofInterface s) = [] := by
    rw [List.flatMap_eq_nil_iff]
    intro i hi
    unfold Forwarder.ofInterface
    simp only
    split
    · next stub companion hstub hcompanion =>
      have hlists := Scope.lists_of_mem_interfaceClosure hi
      rw [h.companions i stub hstub hlists] at hcompanion
      cases hcompanion
    · rfl
  unfold Forwarder.needed
  rw [hnone]
  rfl

/-- No call has a rule by which it goes elsewhere. Each rule asks for one of the three things that
cannot be seen. -/
theorem Inert.not_goesTo (h : Inert s) (opcode : UInt8) (target : MemberRef)
    (callee : Invocation) : ¬ GoesTo s opcode target callee := by
  intro hgoes
  cases hgoes with
  | factory d hd hfactory hdeclared =>
    -- The method that is looked for has the name that no visible method has.
    unfold declaresStatic at hdeclared
    cases hlookup : s.scope.lookup target.owner with
    | none =>
      rw [hlookup] at hdeclared
      cases hdeclared
    | some stub =>
      cases hfound : stub.method? s.conventions.replacementFactory
          (factoryCallee s target d).descriptor with
      | none =>
        rw [hlookup, Option.bind_some, hfound] at hdeclared
        cases hdeclared
      | some m =>
        have hname := List.find?_some hfound
        rw [Bool.and_eq_true, decide_eq_true_eq] at hname
        exact h.factories _ stub hlookup m (List.mem_of_find?_eq_some hfound) hname.1
  | mixin _ _ polyfill _ hpolyfill =>
    rw [h.polyfill?] at hpolyfill
    cases hpolyfill
  | replacement _ _ polyfill _ hpolyfill =>
    rw [h.polyfill?] at hpolyfill
    cases hpolyfill

/-- No call is planned to go elsewhere. -/
theorem Inert.not_planned (h : Inert s) {pc : Nat} {opcode : UInt8} {target : MemberRef}
    {site : CallSite} : ¬ CallPlan.Planned s pc opcode target site := by
  intro hplanned
  cases hplanned with
  | constructor newPc _ hplan =>
    obtain ⟨_, polyfill, _, hpolyfill, _⟩ := CallPlan.ofConstructor_eq_redirect hplan
    rw [h.polyfill?] at hpolyfill
    cases hpolyfill
  | call _ hplan =>
    cases follows_of_ofCall hplan with
    | redirect _ hgoes => exact h.not_goesTo _ _ _ hgoes

/-- No call is reported for a polyfill that is missing, as there is no class that could have one. -/
theorem Inert.missing? (h : Inert s) (pool : ConstantPool) (i : Instruction) :
    Redirection.missing? s pool i = none := by
  unfold Redirection.missing?
  split
  · rw [Option.bind_eq_none_iff]
    intro target _
    unfold lacking?
    rw [h.polyfill?]
    cases CallPlan.isFactoryCall s i.opcode target <;> rfl
  · rfl

/-- A body that can be read has no calls to redirect, and none to report. What is reported is
missing in a mixin, and there is none. -/
theorem Inert.planAll (h : Inert s) {pool : ConstantPool} {location : Location} {code : Code}
    {sites : List CallSite} {ds : List Diagnostic}
    (hplan : CallSite.planAll s pool location code = .ok (sites, ds)) : sites = [] ∧ ds = [] := by
  constructor
  · obtain ⟨_, _, hsites⟩ := CallPlan.planned_of_planAll hplan
    refine List.eq_nil_iff_forall_not_mem.2 fun site hsite => ?_
    obtain ⟨_, _, _, _, _, _, hplanned⟩ := hsites site hsite
    exact h.not_planned hplanned
  · obtain ⟨body, _, hscanned⟩ := scanned_of_planAll hplan
    rw [hscanned.diagnostics, List.filterMap_eq_nil_iff]
    intro e _
    unfold diagnostic?
    rw [h.missing?]
    rfl

/-- Whether all that is reported is that members could not be read or written. -/
def OnlyMalformed (ds : List Diagnostic) : Prop :=
  ∀ d ∈ ds, ∃ message, d.finding = .malformedMember message

/-- The turn of a method changes nothing, and at most reports that it could not be read. It may
still fail where the body is malformed. -/
theorem Inert.redirectTurn (h : Inert s) (className : String) (pool : ConstantPool) (m : Member) :
    ∃ ds, Weave.redirectTurn s className pool m = (m, pool, ds) ∧ OnlyMalformed ds := by
  unfold Weave.redirectTurn
  cases hrun : (redirectMethod s className m).on pool with
  | error e =>
    refine ⟨_, rfl, fun d hd => ?_⟩
    rw [List.mem_singleton.1 hd]
    exact ⟨e.message, rfl⟩
  | ok result =>
    obtain ⟨result, last⟩ := result
    cases redirectMethod_eq_ok (Interning.on_eq_ok.1 hrun) with
    | bodiless => exact ⟨[], rfl, List.forall_mem_nil _⟩
    | untouched code ds hcode hplan =>
      rw [(h.planAll hplan).2]
      exact ⟨[], rfl, List.forall_mem_nil _⟩
    | redirected code _ sites ds _ _ _ hcode hplan hsites =>
      exact absurd (h.planAll hplan).1 hsites

/-! ## Phases

In an inert batch every phase finds the same scope, since the phase before has changed nothing in
it. -/

/-- The first phase gives the class back, with nothing to report. Each of its steps does nothing. -/
theorem Inert.prepare (h : Inert s) (c : ClassFile) : Weave.prepare s c = (c, []) := by
  have hcarrier : prepareCarrier s c = (c, []) := by
    unfold prepareCarrier
    rw [h.carrierPolyfill?]
  have hlocals : retypeAllLocals s c = (c, []) := by
    unfold retypeAllLocals
    simp only [h.polyfill?]
  have hforwarders : addForwarders s c = (c, []) := by
    unfold addForwarders
    rw [h.needed, List.foldl_nil, ite_self]
  refine Prod.ext ?_ ?_
  · rw [prepare_fst, hcarrier, hlocals, hforwarders]
  · rw [prepare_snd, hcarrier, hlocals, hforwarders]
    rfl

/-- The second phase gives the class back, and reports at most bodies that could not be read. -/
theorem Inert.redirectCalls (h : Inert s) (c : ClassFile) :
    ∃ ds, Weave.redirectCalls s c = (c, ds) ∧ OnlyMalformed ds := by
  choose report hturn hreport using h.redirectTurn c.name
  refine ⟨c.methods.flatMap (report c.pool), ?_, fun d hd => ?_⟩
  · rw [redirectCalls_takesTurns, takeTurns_of_still hturn]
  · obtain ⟨m, _, hd⟩ := List.mem_flatMap.1 hd
    exact hreport c.pool m d hd

theorem Inert.narrow (h : Inert s) (c : ClassFile) : Weave.narrow s c = (c, []) := by
  unfold Weave.narrow narrowCarrier
  rw [h.carrierPolyfill?]

end Steps

section Batch

variable {conventions : Conventions} {classpath : ClassIndex}

/-- A phase whose step gives every class back gives the batch back, with what the steps have
reported. -/
theorem phase_of_fixed {step : Step} {batch : List ClassFile} (before : List Diagnostic)
    (hstep : ∀ c, ∃ ds, step (surroundings conventions classpath batch) c = (c, ds)
      ∧ OnlyMalformed ds) :
    ∃ ds, phase step conventions classpath ⟨batch, before⟩ = ⟨batch, before ++ ds⟩
      ∧ OnlyMalformed ds := by
  choose reports hsame hreports using hstep
  refine ⟨batch.flatMap reports, ?_, fun d hd => ?_⟩
  · unfold phase
    have hfixed : step { scope := .ofBatch batch classpath, conventions }
        = fun c => (c, reports c) := funext hsame
    simp only [hfixed, List.map_map, List.flatMap_map]
    congr 1
    exact List.map_id _
  · obtain ⟨c, _, hd⟩ := List.mem_flatMap.1 hd
    exact hreports c d hd

/-- **Weaving an inert batch** gives every class back as it was, and reports only that members could
not be read. -/
theorem weave_untouched {batch : List ClassFile}
    (h : Inert (surroundings conventions classpath batch)) :
    (weave conventions classpath batch).classes = batch
      ∧ ∀ d ∈ (weave conventions classpath batch).diagnostics,
        ∃ message, d.finding = .malformedMember message := by
  have hnone : OnlyMalformed [] := List.forall_mem_nil _
  -- No phase changes a class, so each one has the scope of the batch.
  obtain ⟨prepared, hprepare, hprepared⟩ :=
    phase_of_fixed [] fun c => ⟨[], h.prepare c, hnone⟩
  obtain ⟨redirected, hredirect, hredirected⟩ :=
    phase_of_fixed ([] ++ prepared) h.redirectCalls
  obtain ⟨narrowed, hnarrow, hnarrowed⟩ :=
    phase_of_fixed ([] ++ prepared ++ redirected) fun c => ⟨[], h.narrow c, hnone⟩
  have hwoven : weave conventions classpath batch
      = ⟨batch, [] ++ prepared ++ redirected ++ narrowed⟩ := by
    unfold weave
    simp only [hprepare, hredirect, hnarrow]
  rw [hwoven]
  refine ⟨rfl, fun d hd => ?_⟩
  rcases List.mem_append.1 hd with hd | hd
  · rcases List.mem_append.1 hd with hd | hd
    · exact hprepared d hd
    · exact hredirected d hd
  · exact hnarrowed d hd

end Batch

section Libraries

variable {conventions : Conventions} {batch libraries : List ClassFile}

/-- What holds of all classes of a batch and a classpath holds of all that can be seen. -/
theorem forall_lookup_of_stubsOf {p : ClassStub → Prop}
    (h : ∀ stub ∈ ClassIndex.stubsOf (batch ++ libraries), p stub) (name : String)
    (stub : ClassStub)
    (hlookup : (surroundings conventions (.ofClasses libraries) batch).scope.lookup name
      = some stub) : stub.name = name ∧ p stub := by
  obtain ⟨hname, hclass⟩ := Scope.exists_of_lookup_ofBatch hlookup
  exact ⟨hname, h stub (ClassIndex.mem_stubsOf.2 hclass)⟩

/-- Classes without interfaces have no companions. So such a batch is inert if it has no polyfills
and no new factories. -/
theorem inert_of_no_interfaces
    (h : ∀ stub ∈ ClassIndex.stubsOf (batch ++ libraries), stub.interfaces = []
      ∧ conventions.isPolyfill stub.name = false
      ∧ ∀ m ∈ stub.methods, m.name ≠ conventions.replacementFactory) :
    Inert (surroundings conventions (.ofClasses libraries) batch) where
  polyfills name stub hlookup := by
    obtain ⟨hname, _, hpolyfill, _⟩ := forall_lookup_of_stubsOf h name stub hlookup
    rwa [← hname]
  factories name stub hlookup := (forall_lookup_of_stubsOf h name stub hlookup).2.2.2
  companions := by
    rintro name stub - ⟨child, lister, hlister, hlisted⟩
    rw [(forall_lookup_of_stubsOf h child lister hlister).2.1] at hlisted
    cases hlisted

end Libraries

/-- A class with a body that cannot be decoded comes back as it was, and is reported. It is the only
class, and does not see any other. -/
theorem weave_untouched_undecodable : ∃ conventions c, polyfillsInR.conventions = .ok conventions
    ∧ ClassFile.parse undecodableThenX = .ok c
    ∧ Inert (surroundings conventions (.ofClasses []) [c])
    ∧ (weave conventions (.ofClasses []) [c]).classes = [c]
    ∧ ∃ d ∈ (weave conventions (.ofClasses []) [c]).diagnostics,
      ∃ message, d.finding = .malformedMember message := by
  have hevaluated : (do
      let conventions ← polyfillsInR.conventions.toOption
      let c ← (ClassFile.parse undecodableThenX).toOption
      let d ← (weave conventions (.ofClasses []) [c]).diagnostics.head?
      return decide (∀ stub ∈ ClassIndex.stubsOf [c], stub.interfaces = []
        ∧ conventions.isPolyfill stub.name = false
        ∧ ∀ m ∈ stub.methods, m.name ≠ conventions.replacementFactory)) = some true := by
    decide +kernel
  simp only [toOption_bind_eq_some] at hevaluated
  obtain ⟨conventions, hconventions, c, hc, hevaluated⟩ := hevaluated
  obtain ⟨d, hd, hstubs⟩ := Option.bind_eq_some_iff.1 hevaluated
  -- Nothing in the class has a polyfill, and still its first method is reported.
  have hinert : Inert (surroundings conventions (.ofClasses []) [c]) :=
    inert_of_no_interfaces (of_decide_eq_true (Option.some.inj hstubs))
  obtain ⟨hclasses, hmalformed⟩ := weave_untouched hinert
  have hd := List.mem_of_head? hd
  exact ⟨conventions, c, hconventions, hc, hinert, hclasses, d, hd, hmalformed d hd⟩

/-- A class `X` that lists the class `A` among its interfaces. -/
def listerOfClass : Bytes :=
  [202, 254, 186, 190, 0, 0, 0, 50, 0, 7, 1, 0, 1, 88, 7, 0, 1, 1, 0, 16, 106, 97, 118, 97,
   47, 108, 97, 110, 103, 47, 79, 98, 106, 101, 99, 116, 7, 0, 3, 1, 0, 1, 65, 7, 0, 5, 0, 33,
   0, 2, 0, 4, 0, 1, 0, 6, 0, 0, 0, 0, 0, 0]

/-- The class `A`, which is no interface and has an abstract method `m`. -/
def listedClass : Bytes :=
  [202, 254, 186, 190, 0, 0, 0, 50, 0, 7, 1, 0, 1, 65, 7, 0, 1, 1, 0, 16, 106, 97, 118, 97,
   47, 108, 97, 110, 103, 47, 79, 98, 106, 101, 99, 116, 7, 0, 3, 1, 0, 1, 109, 1, 0, 3, 40,
   41, 86, 4, 33, 0, 2, 0, 4, 0, 0, 0, 0, 0, 1, 4, 1, 0, 5, 0, 6, 0, 0, 0, 0]

/-- A class `A$` with a static method `m` that takes an `A`. -/
def companionOfClass : Bytes :=
  [202, 254, 186, 190, 0, 0, 0, 50, 0, 8, 1, 0, 2, 65, 36, 7, 0, 1, 1, 0, 16, 106, 97, 118,
   97, 47, 108, 97, 110, 103, 47, 79, 98, 106, 101, 99, 116, 7, 0, 3, 1, 0, 1, 109, 1, 0, 6,
   40, 76, 65, 59, 41, 86, 1, 0, 4, 67, 111, 100, 101, 0, 33, 0, 2, 0, 4, 0, 0, 0, 0, 0, 1, 0,
   9, 0, 5, 0, 6, 0, 1, 0, 7, 0, 0, 0, 13, 0, 0, 0, 1, 0, 0, 0, 1, 177, 0, 0, 0, 0, 0, 0]

/-- `X` gets a forwarder to `A$`, although no interface can be seen at all: what counts is that `A`
is listed as one. -/
theorem forwards_to_companion_of_class : ∃ conventions lister listed companion,
    polyfillsInR.conventions = .ok conventions ∧ ClassFile.parse listerOfClass = .ok lister
      ∧ ClassFile.parse listedClass = .ok listed
      ∧ ClassFile.parse companionOfClass = .ok companion
      ∧ let classpath := ClassIndex.ofClasses [listed, companion]
        let scope := (surroundings conventions classpath [lister]).scope
        (∀ name stub, scope.lookup name = some stub → conventions.isPolyfill name = false)
          ∧ (∀ name stub, scope.lookup name = some stub →
            ∀ m ∈ stub.methods, m.name ≠ conventions.replacementFactory)
          ∧ (∀ name stub, scope.lookup name = some stub → stub.isInterface = true →
            scope.lookup (conventions.companionName name) = none)
          ∧ (weave conventions classpath [lister]).classes ≠ [lister] := by
  have hevaluated : (do
      let conventions ← polyfillsInR.conventions.toOption
      let lister ← (ClassFile.parse listerOfClass).toOption
      let listed ← (ClassFile.parse listedClass).toOption
      let companion ← (ClassFile.parse companionOfClass).toOption
      return decide ((∀ stub ∈ ClassIndex.stubsOf [lister, listed, companion],
          stub.isInterface = false ∧ conventions.isPolyfill stub.name = false
            ∧ ∀ m ∈ stub.methods, m.name ≠ conventions.replacementFactory)
        ∧ (weave conventions (.ofClasses [listed, companion]) [lister]).classes.map (·.methods)
          ≠ [lister].map (·.methods))) = some true := by
    decide +kernel
  simp only [toOption_bind_eq_some] at hevaluated
  obtain ⟨conventions, hconventions, lister, hlister, listed, hlisted, companion, hcompanion,
    hchecked⟩ := hevaluated
  obtain ⟨hstubs, hwoven⟩ := of_decide_eq_true (Option.some.inj hchecked)
  -- What is decided of the three stubs holds of whatever the scope finds.
  have hvisible (name : String) (stub : ClassStub)
      (hlookup : (surroundings conventions (.ofClasses [listed, companion]) [lister]).scope.lookup
        name = some stub) := forall_lookup_of_stubsOf hstubs name stub hlookup
  refine ⟨conventions, lister, listed, companion, hconventions, hlister, hlisted, hcompanion,
    fun name stub hlookup => ?_, fun name stub hlookup => ?_,
    fun name stub hlookup hinterface => ?_, fun hsame => hwoven (congrArg _ hsame)⟩
  · obtain ⟨hname, _, hpolyfill, _⟩ := hvisible name stub hlookup
    rwa [← hname]
  · exact (hvisible name stub hlookup).2.2.2
  · rw [(hvisible name stub hlookup).2.1] at hinterface
    cases hinterface

end Weave
end ClassLoom
