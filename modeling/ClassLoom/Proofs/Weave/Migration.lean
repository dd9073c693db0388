import ClassLoom.Proofs.Weave.DefaultMethods
import ClassLoom.Proofs.Weave.MemberTables

/-!
# Lambda carriers that migrate

A carrier whose interface has a polyfill migrates to it in two steps: preparing gives it the
polyfill and a new factory, narrowing takes the old interface and the old factories away. The
first step is taken exactly where there is a plan for the carrier. The second one is taken then,
too, unless the polyfill is out of sight: a class of the batch under the name of the polyfill can
come to be seen in between, once its pool has grown into its annotations.

* `polyfill?_redirectedClasses`: polyfills that stay in sight;
* `prepareCarrier_planned`, `migrated_of_halfMigrated`: the two steps;
* `migrated_iff_weave`: the carriers of a woven batch.
-/

namespace ClassLoom

open ConstantPool

/-! ## Classes under one name

A batch may have several classes of one name, of which the first that has a stub is seen. A class
that gets a stub while it is woven may so come in front of one that was seen before. -/

namespace ClassIndex

/-- A class has its stub under its own name, and what comes behind it counts only if it has none.
Classes without a stub cannot be seen. -/
theorem find?_stubsOf_cons (c : ClassFile) (classes : List ClassFile) (name : String) :
    (stubsOf (c :: classes)).find? (fun stub => stub.name = name)
      = (if c.name = name then c.stub.toOption else none).or
        ((stubsOf classes).find? fun stub => stub.name = name) := by
  unfold stubsOf
  rw [List.filterMap_cons]
  cases hstub : c.stub with
  | error e => simp [Except.toOption]
  | ok stub =>
    obtain ⟨_, _, _, _, rfl⟩ := ClassFile.stub_eq_ok.1 hstub
    simp only [Except.toOption, List.find?_cons]
    by_cases hname : c.name = name <;> simp [hname]

/-- What is found under a name is related in two batches where the stubs of the classes of that name
are. -/
theorem rel_lookup_ofClasses {R : ClassStub → ClassStub → Prop} {olds news : List ClassFile}
    (name : String) (h : List.Forall₂ (fun old new => new.name = old.name
      ∧ (old.name = name → Option.Rel R old.stub.toOption new.stub.toOption)) olds news) :
    Option.Rel R ((ofClasses olds).lookup name) ((ofClasses news).lookup name) := by
  have hempty : (empty.lookup name) = none := Std.TreeMap.getElem?_emptyc
  unfold ofClasses
  rw [lookup_insertAll, lookup_insertAll, hempty, Option.none_or, Option.none_or]
  induction h with
  | nil => exact .none
  | @cons old new olds news hhead _ ih =>
    rw [find?_stubsOf_cons, find?_stubsOf_cons, hhead.1]
    -- Only classes of the name decide. Where the first one has no stub, the look-up goes on.
    by_cases hname : old.name = name
    · rw [if_pos hname, if_pos hname]
      have hrel := hhead.2 hname
      generalize old.stub.toOption = stub at hrel ⊢
      generalize new.stub.toOption = stub' at hrel ⊢
      cases hrel with
      | none => exact ih
      | some hsame => exact .some hsame
    · rw [if_neg hname, if_neg hname]
      exact ih

end ClassIndex

namespace Weave

open Member (Rebodied)

/-! ## Polyfills that stay in sight

Weaving keeps what is asked of a polyfill: its name, its flags and its annotations. The one way to
lose sight of one is a class of the batch under its name whose annotations cannot be read at first.
When the pool of that class has grown, they may be readable, and then it hides the polyfill. -/

/-- Whether two stubs make the same polyfill. -/
def SamePolyfill (old new : ClassStub) : Prop :=
  new.access = old.access ∧ new.annotations = old.annotations

section Sight

variable {conventions : Conventions}

/-- A class with annotations that can be read keeps its stub, and gets none if it had none. What
keeps a class from having a stub then is a method whose type cannot be read, and methods are
kept. -/
theorem rel_stub_of_keepsAll {old new : ClassFile} (h : KeepsAll conventions old new)
    (hdescribed : old.Described → new.Described)
    (hannotations : ∃ annotations, old.annotations = .ok annotations) :
    Option.Rel SamePolyfill old.stub.toOption new.stub.toOption := by
  obtain ⟨annotations, hannotations⟩ := hannotations
  have hannotations' : new.annotations = .ok annotations :=
    ClassFile.annotations_grown h.outline.pool h.outline.attributes hannotations
  cases hold : old.stub with
  | ok stub =>
    have hnew : ∃ stub', new.stub = .ok stub' := ClassFile.exists_stub_iff.2
      ⟨⟨annotations, hannotations'⟩, hdescribed (ClassFile.described_of_stub hold)⟩
    obtain ⟨stub', hstub'⟩ := hnew
    obtain ⟨found, _, hfound, _, rfl⟩ := ClassFile.stub_eq_ok.1 hold
    obtain ⟨found', _, hfound', _, rfl⟩ := ClassFile.stub_eq_ok.1 hstub'
    rw [hannotations] at hfound
    rw [hannotations'] at hfound'
    cases hfound
    cases hfound'
    rw [hstub']
    exact .some ⟨h.outline.access, rfl⟩
  | error e =>
    cases hnew : new.stub with
    | error e' => exact .none
    | ok stub' =>
      -- The methods that could not be read are still there.
      have hread : old.Described := by
        intro m hm
        obtain ⟨m', hm', hsame⟩ := h.methods.exists_of_mem hm
        rw [← hsame.descriptor]
        exact ClassFile.described_of_stub hnew m' hm'
      obtain ⟨stub, hstub⟩ := ClassFile.exists_stub_iff.2 ⟨⟨annotations, hannotations⟩, hread⟩
      rw [hold] at hstub
      cases hstub

/-- Stubs that make the same polyfill do so for every class. What a polyfill is said to be depends
on its flags and its annotations only. -/
theorem polyfill?_of_rel {s s' : Surroundings} (hconventions : s'.conventions = s.conventions)
    {name : String} (h : Option.Rel SamePolyfill
      (s.scope.lookup (s.conventions.polyfillName name))
      (s'.scope.lookup (s.conventions.polyfillName name))) :
    s'.polyfill? name = s.polyfill? name := by
  unfold Surroundings.polyfill?
  rw [hconventions]
  split
  · rfl
  · simp only
    generalize s.scope.lookup _ = found at h ⊢
    generalize s'.scope.lookup _ = found' at h ⊢
    -- There is none in either scope, or there are two that agree.
    cases h with
    | none => rfl
    | @some stub stub' hsame =>
      have hannotation : stub'.hasAnnotation s.conventions.mixinMarker
          = stub.hasAnnotation s.conventions.mixinMarker := by
        unfold ClassStub.hasAnnotation
        rw [hsame.2]
      have hinterface : stub'.isInterface = stub.isInterface := by
        unfold ClassStub.isInterface
        rw [hsame.1]
      rw [Option.map_some, Option.map_some, hannotation, hinterface]

/-- How a class has come from another one before the last phase, with methods that can be read
if it goes by the given name. -/
structure KeepsNamed (conventions : Conventions) (name : String) (old new : ClassFile) : Prop where
  keeps : KeepsAll conventions old new
  described : old.name = name → old.Described → new.Described

variable (libraries : List ClassFile) {batch : List ClassFile}

/-- Until the last phase classes keep all their methods, and those whose name can stand in a
descriptor keep them readable. -/
theorem keepsNamed_redirectedClasses (conventions : Conventions) {name : String} (hname : name ≠ "")
    (hmark : ∀ c ∈ batch, ';' ∉ c.name.toList) :
    List.Forall₂ (KeepsNamed conventions name) batch
      (redirectedClasses conventions (.ofClasses libraries) batch) := by
  refine forall₂_redirectedClasses (fun a b c hab hbc => ⟨hab.keeps.trans hbc.keeps, ?_⟩)
    (fun c hmem => ⟨prepare_keepsAll (surroundings conventions _ batch) c, ?_⟩)
    fun s c => ⟨redirectCalls_keepsAll conventions s c, ?_⟩
  · intro ha hdescribed
    exact hbc.described (hab.keeps.outline.name.trans ha) (hab.described ha hdescribed)
  · intro hc hdescribed
    have hnamed : (FieldType.object c.name).IsNamed := ⟨hc ▸ hname, hmark c hmem⟩
    exact described_prepare Scope.seesDescribed_ofBatch (fun _ => hnamed) hdescribed
  · intro _ hdescribed
    exact described_of_forall₂ (redirectCalls_rebodied s c) hdescribed

/-- **Polyfills stay in sight** until the last phase, unless a class of the batch hides its
annotations under the name of one. -/
theorem polyfill?_redirectedClasses {name : String} (hmark : ∀ c ∈ batch, ';' ∉ c.name.toList)
    (hannotations : ∀ c ∈ batch, c.name = conventions.polyfillName name →
      ∃ annotations, c.annotations = .ok annotations) :
    (surroundings conventions (.ofClasses libraries)
        (redirectedClasses conventions (.ofClasses libraries) batch)).polyfill? name
      = (surroundings conventions (.ofClasses libraries) batch).polyfill? name := by
  have hkeeps := keepsNamed_redirectedClasses libraries conventions
    (conventions.polyfillName_ne_empty name) hmark
  have hbatch : Option.Rel SamePolyfill
      ((ClassIndex.ofClasses batch).lookup (conventions.polyfillName name))
      ((ClassIndex.ofClasses (redirectedClasses conventions (.ofClasses libraries) batch)).lookup
        (conventions.polyfillName name)) := by
    -- Of the batch, only a class with the polyfill's name matters, and its stub has kept what is
    -- asked.
    refine ClassIndex.rel_lookup_ofClasses _ (List.forall₂_iff_zip.2 ⟨hkeeps.length_eq, ?_⟩)
    intro old new hmem
    have hkept : KeepsNamed conventions _ old new := (List.forall₂_iff_zip.1 hkeeps).2 hmem
    refine ⟨hkept.keeps.outline.name, fun hold => ?_⟩
    exact rel_stub_of_keepsAll hkept.keeps (hkept.described hold)
      (hannotations old (List.of_mem_zip hmem).1 hold)
  have hconventions : (surroundings conventions (.ofClasses libraries)
      (redirectedClasses conventions (.ofClasses libraries) batch)).conventions
        = (surroundings conventions (.ofClasses libraries) batch).conventions := rfl
  exact polyfill?_of_rel hconventions
    (Scope.rel_lookup_ofBatch (fun _ => ⟨rfl, rfl⟩) hbatch (.ofClasses libraries))

end Sight

/-! ## The first step

A carrier is prepared if there is a plan for it, and is given back as it was otherwise. -/

/-- Whether there is a plan for a carrier, and preparing reports no failure to carry it out. -/
structure Planned (s : Surroundings) (c : ClassFile) : Prop where
  plannable : ∃ params, Plannable s.conventions c params
  unreported : (prepareCarrier s c).2 = []

section Prepared

variable {s : Surroundings} {c : ClassFile} {polyfill : Polyfill}

/-- A carrier is planned where planning a factory gives one. A carrier that has one to plan can only
fail to, and a failure is reported. -/
theorem planned_iff (h : carrierPolyfill? s c = some polyfill) : Planned s c
    ↔ ∃ plan pool, FactoryPlan.of? s.conventions c c.pool = .ok (some plan) pool := by
  constructor
  · rintro ⟨⟨params, hplannable⟩, hunreported⟩
    unfold prepareCarrier at hunreported
    simp only [h, Interning.on] at hunreported
    -- A failure would have been reported, and a carrier in want of a factory is never passed over.
    cases hplan : FactoryPlan.of? s.conventions c c.pool with
    | error e pool =>
      rw [hplan] at hunreported
      cases hunreported
    | ok found pool =>
      cases found with
      | none => exact absurd hplan hplannable.of?_ne_none
      | some plan => exact ⟨plan, pool, rfl⟩
  · rintro ⟨plan, pool, hplan⟩
    obtain ⟨params, _, hplannable, _⟩ := (plans_of_of? hplan).factory
    refine ⟨⟨params, hplannable⟩, ?_⟩
    unfold prepareCarrier
    simp only [h, Interning.on, hplan]

/-- A carrier without a plan is not prepared. -/
theorem prepareCarrier_unplanned (h : carrierPolyfill? s c = some polyfill)
    (hplanned : ¬ Planned s c) : (prepareCarrier s c).1 = c := by
  rw [prepareCarrier_eq_self_iff]
  rintro _ _ plan pool hplan
  exact hplanned ((planned_iff h).2 ⟨plan, pool, hplan⟩)

/-- A carrier with a plan gets the polyfill behind its interfaces, and the factory. The old
interfaces stay in front of it for the time being. -/
theorem prepareCarrier_planned (h : carrierPolyfill? s c = some polyfill) (hplanned : Planned s c)
    (hfree : polyfill.name ∉ c.interfaces) :
    (prepareCarrier s c).1.interfaces = c.interfaces ++ [polyfill.name]
      ∧ ∃ params info, Plannable s.conventions c params
        ∧ { newFactory s.conventions c.name params with
            attributes := [{ name := Code.attributeName, info }] }
          ∈ (prepareCarrier s c).1.methods := by
  obtain ⟨plan, pool, hplan⟩ := (planned_iff h).1 hplanned
  obtain ⟨params, info, hplannable, hfactory⟩ := (plans_of_of? hplan).factory
  have hprepared : (prepareCarrier s c).1
      = addInterface polyfill.name (plan.commit { c with pool }) := by
    unfold prepareCarrier
    simp only [h, Interning.on, hplan]
  have hfree : ¬ (plan.commit { c with pool }).interfaces.contains polyfill.name := by
    rwa [List.contains_iff_mem]
  constructor
  · rw [hprepared, addInterface, if_neg hfree]
    rfl
  · refine ⟨params, info, hplannable, ?_⟩
    rw [hprepared, methods_addInterface, ← hfactory]
    exact List.mem_append_right _ (List.mem_singleton_self _)

/-- Behind the first step the methods of a class get other bodies and companions only. -/
theorem keepsAll_prepareCarrier (s' : Surroundings) (s : Surroundings) (c : ClassFile) :
    KeepsAll s.conventions (prepareCarrier s c).1 (redirectCalls s' (prepare s c).1).1 := by
  have hprepared : KeepsAll s.conventions (prepareCarrier s c).1 (prepare s c).1 := by
    rw [prepare_fst]
    exact (retypeAllLocals_keepsAll _ s _).trans (addForwarders_keepsAll _ s _)
  exact hprepared.trans (redirectCalls_keepsAll _ s' _)

theorem interfaces_redirectCalls_prepare (s' : Surroundings) (s : Surroundings) (c : ClassFile) :
    (redirectCalls s' (prepare s c).1).1.interfaces = (prepareCarrier s c).1.interfaces := by
  rw [(redirectCalls_onlyMethods s' _).interfaces, (prepared_onlyMethods s c).interfaces]

end Prepared

/-! ## The second step

Narrowing looks for the polyfill again, in a later scope. It goes through if the polyfill is seen
there as it was. -/

/-- A carrier has a polyfill if it has the name of a carrier, and if its first interface has one
that replaces it and is an interface itself. -/
theorem carrierPolyfill?_eq_some_iff {s : Surroundings} {c : ClassFile} {polyfill : Polyfill} :
    carrierPolyfill? s c = some polyfill ↔ s.conventions.isLambdaCarrier c.name = true
      ∧ ∃ name, c.interfaces.head? = some name ∧ s.polyfill? name = some polyfill
        ∧ polyfill.kind = .replacement ∧ polyfill.isInterface = true := by
  unfold carrierPolyfill?
  -- A class that is no carrier has none on either side.
  cases hcarrier : s.conventions.isLambdaCarrier c.name with
  | false => simp
  | true =>
    rw [if_neg (by decide)]
    simp only [Option.bind_eq_bind, Option.bind_eq_some_iff, true_and]
    constructor
    · rintro ⟨name, hname, found, hfound, h⟩
      split at h
      · next hboth =>
        cases h
        simp only [Bool.and_eq_true, decide_eq_true_eq] at hboth
        exact ⟨name, hname, hfound, hboth⟩
      · cases h
    · rintro ⟨name, hname, hfound, hkind, hinterface⟩
      exact ⟨name, hname, polyfill, hfound, by simp [hkind, hinterface]⟩

/-- A polyfill is that of the class for which it stands in. -/
theorem standsFor_of_polyfill? {s : Surroundings} {name : String} {polyfill : Polyfill}
    (h : s.polyfill? name = some polyfill) : polyfill.standsFor = name := by
  unfold Surroundings.polyfill? at h
  split at h
  · cases h
  · obtain ⟨stub, _, rfl⟩ := Option.map_eq_some_iff.1 h
    rfl

section Narrowed

variable {s s' : Surroundings} {c new : ClassFile} {polyfill : Polyfill}

/-- **A carrier has one polyfill** at all times, if any: whatever can be seen, it is of one name and
one kind. -/
theorem carrierPolyfill?_later (h : carrierPolyfill? s c = some polyfill)
    (hconventions : s'.conventions = s.conventions) (hname : new.name = c.name)
    (hhead : new.interfaces.head? = c.interfaces.head?) {polyfill' : Polyfill} :
    carrierPolyfill? s' new = some polyfill'
      ↔ polyfill' = polyfill ∧ s'.polyfill? polyfill.standsFor = some polyfill := by
  obtain ⟨hcarrier, name, hfirst, hpolyfill, hkind, hinterface⟩ :=
    carrierPolyfill?_eq_some_iff.1 h
  have hstands := standsFor_of_polyfill? hpolyfill
  rw [carrierPolyfill?_eq_some_iff, hconventions, hname, hhead, hstands]
  constructor
  · rintro ⟨_, first, hfirst', hpolyfill', hkind', hinterface'⟩
    rw [hfirst] at hfirst'
    cases hfirst'
    -- Both polyfills are those of the first interface, so they have one name and one kind.
    have hsame : polyfill' = polyfill := by
      have hstands' := standsFor_of_polyfill? hpolyfill'
      have hnames' := Surroundings.name_of_polyfill? hpolyfill'
      have hnames := Surroundings.name_of_polyfill? hpolyfill
      cases polyfill
      cases polyfill'
      simp_all
    exact ⟨hsame, hsame ▸ hpolyfill'⟩
  · rintro ⟨rfl, hseen⟩
    exact ⟨hcarrier, name, hfirst, hseen, hkind, hinterface⟩

/-- A carrier that has not the polyfill among its interfaces is not narrowed. -/
theorem narrowCarrier_unprepared (hlater : ∀ polyfill', carrierPolyfill? s c = some polyfill' →
    polyfill' = polyfill) (hfree : polyfill.name ∉ c.interfaces) : narrowCarrier s c = c := by
  rw [narrowCarrier_eq_self_iff]
  rintro polyfill' hpolyfill' ⟨_, hmem⟩
  rw [hlater polyfill' hpolyfill'] at hmem
  exact hfree hmem

/-- A prepared carrier is narrowed where its polyfill can be seen. All interfaces but the polyfill
go, and all methods by the old name. -/
theorem narrowCarrier_prepared (hseen : carrierPolyfill? s c = some polyfill)
    (hfactory : ∃ m ∈ c.methods, m.name = s.conventions.replacementFactory)
    (hinterface : polyfill.name ∈ c.interfaces) : narrowCarrier s c =
      { c with
        interfaces := c.interfaces.filter (· = polyfill.name)
        methods := c.methods.filter (·.name ≠ s.conventions.lambdaFactory) } := by
  have hboth : (c.methods.any (·.name = s.conventions.replacementFactory)
      && c.interfaces.contains polyfill.name) = true := by
    simpa [hinterface] using hfactory
  unfold narrowCarrier
  rw [hseen]
  simp only
  rw [if_pos hboth]

end Narrowed

/-! ## Woven carriers

A carrier ends in one of three ways. It has stayed as it was, it has gone over to the polyfill, or
it has both interfaces and both factories. -/

/-- Whether a class has a static factory under the new name, which takes what the first static one
under the old name took and returns the class. -/
def HasNewFactory (conventions : Conventions) (old new : ClassFile) : Prop :=
  ∃ first d m, old.methods.find? (fun m => m.name = conventions.lambdaFactory && m.isStatic)
      = some first
    ∧ MethodDescriptor.parse first.descriptor = .ok d
    ∧ m ∈ new.methods ∧ m.isStatic = true ∧ m.name = conventions.replacementFactory
    ∧ m.descriptor
      = MethodDescriptor.text { params := d.params, result := .value (.object old.name) }
    ∧ (old.name ≠ "" → MethodDescriptor.parse m.descriptor
      = .ok { params := d.params, result := .value (.object old.name) })

/-- Whether a carrier has stayed with its interfaces and its methods. -/
structure Unmigrated (conventions : Conventions) (old new : ClassFile) : Prop where
  interfaces : new.interfaces = old.interfaces
  methods : KeepsMethods conventions old.name old.methods new.methods

/-- Whether a carrier has gone over to a polyfill. -/
structure Migrated (conventions : Conventions) (polyfill : String) (old new : ClassFile) :
    Prop where
  interfaces : new.interfaces = [polyfill]
  methods : ∀ m ∈ new.methods, m.name ≠ conventions.lambdaFactory
  factory : HasNewFactory conventions old new

/-- Whether a carrier has got what it needs to go over to a polyfill, and has stayed with what it
had besides. -/
structure HalfMigrated (conventions : Conventions) (polyfill : String) (old new : ClassFile) :
    Prop where
  interfaces : new.interfaces = old.interfaces ++ [polyfill]
  methods : KeepsMethods conventions old.name old.methods new.methods
  factory : HasNewFactory conventions old new

/-- The new factory of a prepared carrier, with whatever body: later steps keep its name, its type
and its flags. -/
theorem hasNewFactory_of_keeps {conventions : Conventions} {old new : ClassFile}
    {prepared : List Member} {params : List FieldType} {info : Bytes}
    (hmark : ';' ∉ old.name.toList) (hplannable : Plannable conventions old params)
    (hmem : { newFactory conventions old.name params with
      attributes := [{ name := Code.attributeName, info }] } ∈ prepared)
    (hkeeps : KeepsMethods conventions old.name prepared new.methods) :
    HasNewFactory conventions old new := by
  obtain ⟨first, d, hfirst, hd, rfl⟩ := hplannable.factory
  obtain ⟨m, hm, hsame⟩ := hkeeps.exists_of_mem hmem
  have haccess : m.access = Access.publicFlag ||| Access.staticFlag := hsame.access
  have hdescriptor : m.descriptor
      = "(" ++ FieldType.textOfAll d.params ++ ")" ++ ("L" ++ old.name ++ ";") := hsame.descriptor
  refine ⟨first, d, m, hfirst, hd, hm, ?_, hsame.name, ?_, fun hname => ?_⟩
  · rw [Member.isStatic, haccess]
    decide
  · rw [hdescriptor, text_newFactory]
  · rw [hdescriptor]
    exact parse_factoryDescriptor hd ⟨hname, hmark⟩

section Carrier

variable {s s₂ s₃ : Surroundings} {c : ClassFile} {polyfill : Polyfill}

/-- What is seen of a carrier in the last phase, before it is narrowed. It is known by its first
interface, which is still there. -/
theorem carrierPolyfill?_redirected (h : carrierPolyfill? s c = some polyfill)
    (hconventions : s₃.conventions = s.conventions) {polyfill' : Polyfill} :
    carrierPolyfill? s₃ (redirectCalls s₂ (prepare s c).1).1 = some polyfill'
      ↔ polyfill' = polyfill ∧ s₃.polyfill? polyfill.standsFor = some polyfill := by
  obtain ⟨first, hfirst, _⟩ := head_of_carrierPolyfill? h
  refine carrierPolyfill?_later h hconventions ?_ ?_
  · rw [(redirectCalls_extends s₂ _).name, (prepare_extends s c).name]
  · -- The interfaces that a carrier had are in front of the one that it gets.
    rw [interfaces_redirectCalls_prepare]
    obtain ⟨more, hmore⟩ := (prepareCarrier_extends s c).interfaces
    obtain ⟨rest, hrest⟩ := List.head?_eq_some_iff.1 hfirst
    rw [← hmore, hrest]
    rfl

/-- A carrier without a plan stays as it is to the end. -/
theorem unmigrated_of_not_planned (h : carrierPolyfill? s c = some polyfill)
    (hconventions : s₃.conventions = s.conventions) (hfree : polyfill.name ∉ c.interfaces)
    (hplanned : ¬ Planned s c) :
    Unmigrated s.conventions c (narrowCarrier s₃ (redirectCalls s₂ (prepare s c).1).1) := by
  have hprepared := prepareCarrier_unplanned h hplanned
  have hinterfaces := interfaces_redirectCalls_prepare s₂ s c
  have hkeeps := keepsAll_prepareCarrier s₂ s c
  rw [hprepared] at hinterfaces hkeeps
  rw [narrowCarrier_unprepared (fun _ hlater => ((carrierPolyfill?_redirected h hconventions).1
    hlater).1) (by rwa [hinterfaces])]
  exact ⟨hinterfaces, hkeeps.methods⟩

/-- What a planned carrier is like before it is narrowed. -/
theorem redirected_of_planned (h : carrierPolyfill? s c = some polyfill)
    (hmark : ';' ∉ c.name.toList) (hfree : polyfill.name ∉ c.interfaces)
    (hplanned : Planned s c) :
    HalfMigrated s.conventions polyfill.name c (redirectCalls s₂ (prepare s c).1).1 := by
  obtain ⟨hinterfaces, params, info, hplannable, hmem⟩ := prepareCarrier_planned h hplanned hfree
  have hkeeps := keepsAll_prepareCarrier s₂ s c
  have hmethods := hkeeps.methods
  rw [(prepareCarrier_extends s c).name] at hmethods
  refine ⟨by rw [interfaces_redirectCalls_prepare, hinterfaces], ?_, ?_⟩
  · exact (prepareCarrier_keepsAll s c).methods.trans hmethods
  · exact hasNewFactory_of_keeps hmark hplannable hmem hmethods

/-- The last step takes a carrier all the way. It has the polyfill among its interfaces, and keeps
it alone; the old factories go, and the new one has another name. -/
theorem migrated_of_halfMigrated {mid : ClassFile}
    (hhalf : HalfMigrated s.conventions polyfill.name c mid)
    (hconventions : s₃.conventions = s.conventions)
    (hfactory : s.conventions.replacementFactory ≠ s.conventions.lambdaFactory)
    (hfree : polyfill.name ∉ c.interfaces) (hseen : carrierPolyfill? s₃ mid = some polyfill) :
    Migrated s.conventions polyfill.name c (narrowCarrier s₃ mid) := by
  obtain ⟨first, d, m, hfirst, hd, hm, hstatic, hname, hdescriptor⟩ := hhalf.factory
  have hmem : polyfill.name ∈ mid.interfaces := by
    rw [hhalf.interfaces]
    exact List.mem_append_right _ (List.mem_singleton_self _)
  rw [narrowCarrier_prepared hseen ⟨m, hm, hconventions ▸ hname⟩ hmem]
  constructor
  -- The polyfill is listed once, as the last interface.
  · have hnone : c.interfaces.filter (· = polyfill.name) = [] := by
      rw [List.filter_eq_nil_iff]
      intro name hname hsame
      exact hfree (of_decide_eq_true hsame ▸ hname)
    simp [hhalf.interfaces, hnone]
  · intro m' hm'
    have hkept := (List.mem_filter.1 hm').2
    rw [← hconventions]
    simpa using hkept
  · refine ⟨first, d, m, hfirst, hd, List.mem_filter.2 ⟨hm, ?_⟩, hstatic, hname, hdescriptor⟩
    rw [hname, hconventions]
    simpa using hfactory

/-- A carrier with a plan migrates where its polyfill stays in sight. -/
theorem migrated_of_planned (h : carrierPolyfill? s c = some polyfill)
    (hconventions : s₃.conventions = s.conventions)
    (hfactory : s.conventions.replacementFactory ≠ s.conventions.lambdaFactory)
    (hmark : ';' ∉ c.name.toList) (hfree : polyfill.name ∉ c.interfaces) (hplanned : Planned s c)
    (hseen : s₃.polyfill? polyfill.standsFor = some polyfill) :
    Migrated s.conventions polyfill.name c
      (narrowCarrier s₃ (redirectCalls s₂ (prepare s c).1).1) :=
  migrated_of_halfMigrated (redirected_of_planned h hmark hfree hplanned) hconventions hfactory
    hfree ((carrierPolyfill?_redirected h hconventions).2 ⟨rfl, hseen⟩)

/-- Otherwise it is left with both. It has both interfaces then, and both factories. This is what
preparing makes of it, and what narrowing would finish. -/
theorem halfMigrated_of_planned (h : carrierPolyfill? s c = some polyfill)
    (hconventions : s₃.conventions = s.conventions) (hmark : ';' ∉ c.name.toList)
    (hfree : polyfill.name ∉ c.interfaces) (hplanned : Planned s c)
    (hunseen : s₃.polyfill? polyfill.standsFor ≠ some polyfill) :
    HalfMigrated s.conventions polyfill.name c
      (narrowCarrier s₃ (redirectCalls s₂ (prepare s c).1).1) := by
  have hsame : narrowCarrier s₃ (redirectCalls s₂ (prepare s c).1).1
      = (redirectCalls s₂ (prepare s c).1).1 := by
    rw [narrowCarrier_eq_self_iff]
    intro polyfill' hlater
    exact absurd ((carrierPolyfill?_redirected h hconventions).1 hlater).2 hunseen
  rw [hsame]
  exact redirected_of_planned h hmark hfree hplanned

end Carrier

/-- Three ends that are apart, each with a start of its own: the start tells the end, and the end
the start. -/
theorem ends_iff_starts {planned seen stayed gone half : Prop} (hstayed : ¬ planned → stayed)
    (hgone : planned → seen → gone) (hhalf : planned → ¬ seen → half)
    (hapart : ¬ (stayed ∧ gone) ∧ ¬ (stayed ∧ half) ∧ ¬ (gone ∧ half)) :
    (stayed ↔ ¬ planned) ∧ (gone ↔ planned ∧ seen) ∧ (half ↔ planned ∧ ¬ seen) := by
  grind

/-- A carrier has other interfaces at each of the three ends, so they cannot be mixed up. So what
the theorem says of a carrier is one of the three and no other. -/
theorem ends_apart (conventions : Conventions) {old : ClassFile} (new : ClassFile)
    {polyfill first : String} (hfirst : old.interfaces.head? = some first)
    (hfree : polyfill ∉ old.interfaces) :
    ¬ (Unmigrated conventions old new ∧ Migrated conventions polyfill old new)
      ∧ ¬ (Unmigrated conventions old new ∧ HalfMigrated conventions polyfill old new)
      ∧ ¬ (Migrated conventions polyfill old new
        ∧ HalfMigrated conventions polyfill old new) := by
  refine ⟨fun ⟨hstayed, hgone⟩ => ?_, fun ⟨hstayed, hhalf⟩ => ?_, fun ⟨hgone, hhalf⟩ => ?_⟩
  · have hsame := hstayed.interfaces.symm.trans hgone.interfaces
    rw [hsame] at hfree
    exact hfree (List.mem_singleton_self polyfill)
  · have hsame := hstayed.interfaces.symm.trans hhalf.interfaces
    simp at hsame
  · have hsame := hgone.interfaces.symm.trans hhalf.interfaces
    have hnone : old.interfaces = [] := by simpa using hsame.symm
    rw [hnone] at hfirst
    cases hfirst

section Batch

variable {conventions : Conventions} {classpath : ClassIndex} {batch : List ClassFile}

/-- What becomes of a class of a batch, phase by phase. -/
theorem getElem?_weave_of_batch {i : Nat} {old : ClassFile} (h : batch[i]? = some old) :
    (weave conventions classpath batch).classes[i]? = some
      (narrowCarrier (surroundings conventions classpath
          (redirectedClasses conventions classpath batch))
        (redirectCalls (surroundings conventions classpath
            (phaseClasses prepare conventions classpath batch))
          (prepare (surroundings conventions classpath batch) old).1).1) := by
  rw [weave_classes]
  unfold redirectedClasses
  simp only [phaseClasses, List.getElem?_map, h, Option.map_some, narrow_fst]

/-- Whether a polyfill can be seen in the last phase. -/
def StaysSeen (conventions : Conventions) (classpath : ClassIndex) (batch : List ClassFile)
    (polyfill : Polyfill) : Prop :=
  (surroundings conventions classpath (redirectedClasses conventions classpath batch)).polyfill?
    polyfill.standsFor = some polyfill

/-- **What becomes of a lambda carrier** whose interface has a polyfill that it has not. It migrates
where there is a plan for it and its polyfill stays in sight. Where the polyfill does not, the
carrier is left half way, and some class of the batch has hidden its annotations under the name of
the polyfill. -/
theorem migrated_iff_weave {settings : Settings}
    (hsettings : settings.conventions = .ok conventions) {libraries : List ClassFile}
    (hmark : ∀ c ∈ batch, ';' ∉ c.name.toList) {i : Nat} {old new : ClassFile}
    {polyfill : Polyfill} (hold : batch[i]? = some old)
    (hnew : (weave conventions (.ofClasses libraries) batch).classes[i]? = some new)
    (hcarrier : carrierPolyfill? (surroundings conventions (.ofClasses libraries) batch) old
      = some polyfill) (hfree : polyfill.name ∉ old.interfaces) :
    let planned := Planned (surroundings conventions (.ofClasses libraries) batch) old
    let seen := StaysSeen conventions (.ofClasses libraries) batch polyfill
    ((Unmigrated conventions old new ↔ ¬ planned)
        ∧ (Migrated conventions polyfill.name old new ↔ planned ∧ seen)
        ∧ (HalfMigrated conventions polyfill.name old new ↔ planned ∧ ¬ seen))
      ∧ (¬ seen → ∃ hidden ∈ batch, hidden.name = polyfill.name
        ∧ ∀ annotations, hidden.annotations ≠ .ok annotations) := by
  intro planned seen
  have hmarkOld := hmark old (List.mem_of_getElem? hold)
  have hfactory := settings.replacementFactory_ne hsettings
  have hwoven := Option.some.inj ((getElem?_weave_of_batch hold).symm.trans hnew)
  obtain ⟨first, hfirst, hpolyfill⟩ := head_of_carrierPolyfill? hcarrier
  -- The three ends are apart, so it is enough to show where each start leads.
  refine ⟨ends_iff_starts (fun hplanned => ?_) (fun hplanned hseen => ?_)
    (fun hplanned hseen => ?_) (ends_apart conventions new hfirst hfree), fun hseen => ?_⟩
  · rw [← hwoven]
    exact unmigrated_of_not_planned hcarrier rfl hfree hplanned
  · rw [← hwoven]
    exact migrated_of_planned hcarrier rfl hfactory hmarkOld hfree hplanned hseen
  · rw [← hwoven]
    exact halfMigrated_of_planned hcarrier rfl hmarkOld hfree hplanned hseen
  · -- Had no class hidden its annotations, the polyfill would be in sight.
    by_contra hnone
    push Not at hnone
    have hstands := standsFor_of_polyfill? hpolyfill
    have hname := Surroundings.name_of_polyfill? hpolyfill
    refine hseen ((polyfill?_redirectedClasses libraries hmark fun c hc hsame => ?_).trans ?_)
    · exact hnone c hc (hsame.trans (hstands ▸ hname.symm))
    · rw [hstands, hpolyfill]

end Batch

/-- A class under the name of the polyfill of `I`, which is no interface. Its annotation has a type
behind the end of the pool, and can be read once the call of `X.f` has been redirected. -/
def hiddenPolyfill : Bytes :=
  [202, 254, 186, 190, 0, 0, 0, 50, 0, 14, 1, 0, 4, 114, 47, 95, 73, 7, 0, 1, 1, 0, 16, 106, 97,
   118, 97, 47, 108, 97, 110, 103, 47, 79, 98, 106, 101, 99, 116, 7, 0, 3, 1, 0, 1, 88, 7, 0, 5, 1,
   0, 1, 102, 1, 0, 3, 40, 41, 86, 12, 0, 7, 0, 8, 10, 0, 6, 0, 9, 1, 0, 1, 109, 1, 0, 4, 67, 111,
   100, 101, 1, 0, 25, 82, 117, 110, 116, 105, 109, 101, 86, 105, 115, 105, 98, 108, 101, 65, 110,
   110, 111, 116, 97, 116, 105, 111, 110, 115, 0, 33, 0, 2, 0, 4, 0, 0, 0, 0, 0, 1, 0, 9, 0, 11, 0,
   8, 0, 1, 0, 12, 0, 0, 0, 16, 0, 0, 0, 0, 0, 0, 0, 4, 184, 0, 10, 177, 0, 0, 0, 0, 0, 1, 0, 13, 0,
   0, 0, 6, 0, 1, 0, 14, 0, 0]

/-- The polyfill of `X`. -/
def polyfillOfX : Bytes :=
  [202, 254, 186, 190, 0, 0, 0, 50, 0, 5, 1, 0, 4, 114, 47, 95, 88, 7, 0, 1, 1, 0, 16, 106, 97,
   118, 97, 47, 108, 97, 110, 103, 47, 79, 98, 106, 101, 99, 116, 7, 0, 3, 0, 33, 0, 2, 0, 4, 0, 0,
   0, 0, 0, 0, 0, 0]

/-- The carrier is prepared with a polyfill that is out of sight when it should be narrowed. A class
of the batch by the same name hides it once its annotations can be read. -/
theorem migrated_iff_weave_hidden : ∃ conventions carrier hidden polyfill library,
    polyfillsInR.conventions = .ok conventions ∧ ClassFile.parse carrierOfI = .ok carrier
      ∧ ClassFile.parse hiddenPolyfill = .ok hidden
      ∧ ClassFile.parse carriedPolyfill = .ok polyfill
      ∧ ClassFile.parse polyfillOfX = .ok library
      ∧ let batch := [carrier, hidden]
        let classpath := ClassIndex.ofClasses [polyfill, library]
        (batch.map (·.name)).Nodup ∧ (∀ c ∈ batch, ';' ∉ c.name.toList)
          ∧ ∃ found new, carrierPolyfill? (surroundings conventions classpath batch) carrier
              = some found
            ∧ found.name ∉ carrier.interfaces
            ∧ (weave conventions classpath batch).classes[0]? = some new
            ∧ HalfMigrated conventions found.name carrier new
            ∧ ¬ Unmigrated conventions carrier new
            ∧ ¬ Migrated conventions found.name carrier new := by
  have hwoven : (do
      let conventions ← polyfillsInR.conventions.toOption
      let carrier ← (ClassFile.parse carrierOfI).toOption
      let hidden ← (ClassFile.parse hiddenPolyfill).toOption
      let polyfill ← (ClassFile.parse carriedPolyfill).toOption
      let library ← (ClassFile.parse polyfillOfX).toOption
      let batch := [carrier, hidden]
      let classpath := ClassIndex.ofClasses [polyfill, library]
      let found ← carrierPolyfill? (surroundings conventions classpath batch) carrier
      let new ← (weave conventions classpath batch).classes[0]?
      return decide ((batch.map (·.name)).Nodup ∧ (∀ c ∈ batch, ';' ∉ c.name.toList)
        ∧ found.name ∉ carrier.interfaces ∧ new.interfaces ≠ carrier.interfaces
        ∧ new.interfaces ≠ [found.name])) = some true := by
    decide +kernel
  simp only [toOption_bind_eq_some] at hwoven
  obtain ⟨conventions, hconventions, carrier, hcarrier, hidden, hhidden, polyfill, hpolyfill,
    library, hlibrary, hwoven⟩ := hwoven
  obtain ⟨found, hfound, hwoven⟩ := Option.bind_eq_some_iff.1 hwoven
  obtain ⟨new, hnew, hchecked⟩ := Option.bind_eq_some_iff.1 hwoven
  obtain ⟨hnodup, hmark, hfree, hmoved, hshort⟩ := of_decide_eq_true (Option.some.inj hchecked)
  refine ⟨conventions, carrier, hidden, polyfill, library, hconventions, hcarrier, hhidden,
    hpolyfill, hlibrary, hnodup, hmark, found, new, hfound, hfree, hnew, ?_⟩
  -- It has neither the old interfaces nor the polyfill alone, which leaves the third end.
  obtain ⟨⟨hstayed, hgone, hhalf⟩, _⟩ :=
    migrated_iff_weave hconventions hmark (i := 0) rfl hnew hfound hfree
  have hunmigrated : ¬ Unmigrated conventions carrier new := fun h => hmoved h.interfaces
  have hmigrated : ¬ Migrated conventions found.name carrier new := fun h => hshort h.interfaces
  have hplanned := not_not.1 (mt hstayed.2 hunmigrated)
  exact ⟨hhalf.2 ⟨hplanned, fun hseen => hmigrated (hgone.2 ⟨hplanned, hseen⟩)⟩, hunmigrated,
    hmigrated⟩

end Weave
end ClassLoom
