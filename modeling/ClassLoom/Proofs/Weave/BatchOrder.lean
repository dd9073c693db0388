import ClassLoom.Proofs.Weave.Kept
import ClassLoom.Proofs.Weave.WovenScope

/-!
# The order of a batch

What a step makes of a class depends on the class and on what can be seen, and of that on nothing
but what is found under each name and how many classes there are (`Surroundings.Alike`). Where the
classes of a batch have different names, neither depends on their order: the first class of a name
is the only one.

* `ClassIndex.alike_ofClasses`: the index of classes in another order;
* `Surroundings.Alike.prepare`, `.redirectCalls` and `.narrow`: no step can tell the two apart;
* `weave_perm`: a batch in another order.
-/

namespace ClassLoom

/-! ## Indices

Two indices of the same classes need not be the same tree: its shape depends on the order in which
classes were added. They answer alike, though, and nothing else is ever asked of them. -/

namespace ClassIndex

/-- Whether two indices cannot be told apart by what is found in them. -/
structure Alike (index other : ClassIndex) : Prop where
  size : other.size = index.size
  lookup : other.lookup = index.lookup

section Alike

variable {index other third : ClassIndex}

theorem Alike.refl (index : ClassIndex) : Alike index index := ⟨rfl, rfl⟩

theorem Alike.trans (h : Alike index other) (h' : Alike other third) : Alike index third :=
  ⟨h'.size.trans h.size, h'.lookup.trans h.lookup⟩

/-- Adding a class keeps indices alike: whether there is one of its name is found by looking it
up. -/
theorem Alike.insert (h : Alike index other) (stub : ClassStub) :
    Alike (index.insert stub) (other.insert stub) := by
  constructor
  · rw [size_insert, size_insert, h.size, h.lookup]
  · funext name
    rw [lookup_insert, lookup_insert, h.lookup]

/-- Adding several classes keeps indices alike, one after the other. -/
theorem Alike.insertAll (h : Alike index other) (stubs : List ClassStub) :
    Alike (index.insertAll stubs) (other.insertAll stubs) := by
  induction stubs generalizing index other with
  | nil => exact h
  | cons stub stubs ih => exact ih (h.insert stub)

/-- Classes of different names do not get in each other's way: neither is the one that keeps the
other from being added. -/
theorem alike_insert_insert (index : ClassIndex) {x y : ClassStub} (hne : x.name ≠ y.name) :
    Alike ((index.insert y).insert x) ((index.insert x).insert y) := by
  constructor
  · simp only [size_insert, lookup_insert, if_neg hne, if_neg hne.symm]
    split <;> split <;> rfl
  · funext name
    simp only [lookup_insert]
    by_cases hx : name = x.name
    · simp only [if_pos hx, if_neg (hx ▸ hne)]
    · simp only [if_neg hx]

/-- **Classes of different names can be added in any order.** A permutation is made of exchanges of
neighbours, and each of these is harmless. -/
theorem alike_insertAll_of_perm {stubs others : List ClassStub} (h : others.Perm stubs)
    (hnames : (stubs.map (·.name)).Nodup) (index : ClassIndex) :
    Alike (index.insertAll stubs) (index.insertAll others) := by
  induction h generalizing index with
  | nil => exact .refl index
  | cons stub _ ih => exact ih (List.nodup_cons.1 hnames).2 (index.insert stub)
  | swap x y rest =>
    have hne : x.name ≠ y.name := by
      intro hsame
      exact (List.nodup_cons.1 hnames).1 (List.mem_cons.2 (.inl hsame))
    exact (alike_insert_insert index hne.symm).insertAll rest
  | trans hfirst hsecond ihFirst ihSecond =>
    have hmiddle := (hsecond.map (·.name)).nodup_iff.2 hnames
    exact (ihSecond hnames index).trans (ihFirst hmiddle index)

theorem name_of_stub {c : ClassFile} {stub : ClassStub} (h : c.stub = .ok stub) :
    stub.name = c.name := by
  obtain ⟨_, _, _, _, rfl⟩ := ClassFile.stub_eq_ok.1 h
  rfl

/-- The names of stubs are those of their classes, in order. Some are missing, where a class has no
stub. -/
theorem names_stubsOf_sublist (classes : List ClassFile) :
    ((stubsOf classes).map (·.name)).Sublist (classes.map (·.name)) := by
  induction classes with
  | nil => exact .slnil
  | cons c classes ih =>
    unfold stubsOf at ih ⊢
    rw [List.filterMap_cons]
    cases hstub : c.stub with
    | error e => exact ih.cons _
    | ok stub =>
      simp only [Except.toOption, List.map_cons, name_of_stub hstub]
      exact ih.cons_cons _

theorem alike_ofClasses {classes others : List ClassFile} (h : others.Perm classes)
    (hnames : (classes.map (·.name)).Nodup) : Alike (ofClasses classes) (ofClasses others) :=
  alike_insertAll_of_perm (h.filterMap _) (hnames.sublist (names_stubsOf_sublist classes)) empty

end Alike
end ClassIndex

/-! ## Scopes

All questions that are asked of a scope go through its two indices. The chain of superclasses and
the set of interfaces are also cut off after so many steps as there are classes, and the number of
those is the same as well. -/

namespace Scope

/-- Whether two scopes cannot be told apart by what can be seen. -/
structure Alike (scope other : Scope) : Prop where
  size : other.size = scope.size
  lookup : other.lookup = scope.lookup

section Alike

variable {scope other : Scope}

/-- Scopes are alike if their batches are and they share the classpath. A class of the batch still
hides the one of its name on the classpath. -/
theorem alike_of_batch {batch others classpath : ClassIndex} (h : ClassIndex.Alike batch others) :
    Alike { batch, classpath } { batch := others, classpath } := by
  constructor
  · show others.size + classpath.size = batch.size + classpath.size
    rw [h.size]
  · funext name
    show (others.lookup name <|> classpath.lookup name)
      = (batch.lookup name <|> classpath.lookup name)
    rw [h.lookup]

/-- The chain of superclasses is the same, and so is the number of steps after which it would be cut
off. -/
theorem Alike.superclasses (h : Alike scope other) :
    other.superclasses = scope.superclasses := by
  have hchain (fuel : Nat) (seen : List String) (name : String) :
      other.chainFrom fuel seen name = scope.chainFrom fuel seen name := by
    induction fuel generalizing seen name with
    | zero => rfl
    | succ fuel ih => simp only [chainFrom, h.lookup, ih]
  funext name
  rw [Scope.superclasses, Scope.superclasses, h.size, hchain]

/-- A method is found in the same class, since the chain is the same. -/
theorem Alike.findMethod (h : Alike scope other) : other.findMethod = scope.findMethod := by
  funext name method descriptor
  rw [Scope.findMethod, Scope.findMethod, h.superclasses]

/-- All interfaces of a class are the same, in the same order. -/
theorem Alike.interfaceClosure (h : Alike scope other) :
    other.interfaceClosure = scope.interfaceClosure := by
  have hinterfaces : other.interfacesOf = scope.interfacesOf := by
    funext name
    rw [interfacesOf, interfacesOf, h.lookup]
  funext name
  unfold Scope.interfaceClosure
  rw [h.size, h.superclasses]
  exact closureFrom_congr fun name _ => congrFun hinterfaces name

/-- The class that declares a method is the same one, on the chain or among the interfaces. -/
theorem Alike.declaringClass (h : Alike scope other) :
    other.declaringClass = scope.declaringClass := by
  funext owner method descriptor
  unfold Scope.declaringClass
  rw [h.findMethod, h.interfaceClosure, h.lookup]

/-- The hierarchy that types are compared in says the same of every name. -/
theorem Alike.hierarchy (h : Alike scope other) : other.hierarchy = scope.hierarchy := by
  funext name
  rw [Scope.hierarchy, Scope.hierarchy, h.lookup]

end Alike
end Scope

/-! ## Steps

None of the steps of weaving looks at a scope in any other way than through these questions. So each
function of the weaver is the same function in surroundings that cannot be told apart. This is shown
from the inside out, each function by those that it calls. -/

namespace Surroundings

section Polyfills

variable {s other : Surroundings}

/-- Types are substituted alike where the same classes have polyfills, whatever the type is an array
of. -/
theorem substitute_congr (h : other.polyfill? = s.polyfill?) :
    other.substitute = s.substitute := by
  funext type
  induction type with
  | base type => rfl
  | object name => rw [substitute, substitute, h]
  | array component ih => rw [substitute, substitute, ih]

/-- The same of whole descriptors: nothing but the names in them is looked up. -/
theorem substituteAll_congr (h : other.polyfill? = s.polyfill?) :
    other.substituteAll = s.substituteAll := by
  have hresult : other.substituteResult = s.substituteResult := by
    funext result
    cases result with
    | void => rfl
    | value type => rw [substituteResult, substituteResult, substitute_congr h]
  funext d
  rw [substituteAll, substituteAll, substitute_congr h, hresult]

end Polyfills

/-- Whether two surroundings cannot be told apart by what can be seen of them. -/
structure Alike (s other : Surroundings) : Prop where
  scope : Scope.Alike s.scope other.scope
  conventions : other.conventions = s.conventions

namespace Alike

open Weave

variable {s other : Surroundings}

theorem polyfill? (h : Alike s other) : other.polyfill? = s.polyfill? := by
  funext name
  rw [Surroundings.polyfill?, Surroundings.polyfill?, h.conventions, h.scope.lookup]

theorem substitute (h : Alike s other) : other.substitute = s.substitute :=
  substitute_congr h.polyfill?

theorem substituteAll (h : Alike s other) : other.substituteAll = s.substituteAll :=
  substituteAll_congr h.polyfill?

theorem withCasts (h : Alike s other) : CallPlan.withCasts other = CallPlan.withCasts s := by
  funext pc d receiverCast call
  unfold CallPlan.withCasts CallSite.castArgs
  rw [h.substitute]

/-- A constructor call is planned alike. -/
theorem ofConstructor (h : Alike s other) :
    CallPlan.ofConstructor other = CallPlan.ofConstructor s := by
  funext pc newPc target
  unfold CallPlan.ofConstructor CallSite.castArgs
  rw [h.polyfill?, h.substitute, h.substituteAll]

/-- Any other call is planned alike. The four rules ask where a method is declared, which polyfill
that class has, and what the polyfill declares. -/
theorem ofCall (h : Alike s other) : CallPlan.ofCall other = CallPlan.ofCall s := by
  funext pc opcode target
  unfold CallPlan.ofCall CallPlan.ofFactory CallPlan.ofMixin CallPlan.ofStatic CallPlan.ofInstance
  simp only [h.conventions, h.scope.declaringClass, h.scope.findMethod, h.scope.lookup,
    h.polyfill?, h.substituteAll, h.withCasts]

/-- So the sites of a body are the same, with the same diagnostics. -/
theorem planAll (h : Alike s other) : CallSite.planAll other = CallSite.planAll s := by
  funext pool location code
  unfold CallSite.planAll Planning.visit
  rw [h.ofConstructor, h.ofCall]

/-- **The redirecting step** cannot tell the two apart. It re-types bodies in the hierarchy, and
plans calls in the scope. -/
theorem redirectCalls (h : Alike s other) : Weave.redirectCalls other = Weave.redirectCalls s := by
  funext c
  unfold Weave.redirectCalls redirectNext redirectMethod redirectCode
  rw [h.planAll, h.scope.hierarchy]

theorem carrierPolyfill? (h : Alike s other) :
    Weave.carrierPolyfill? other = Weave.carrierPolyfill? s := by
  funext c
  unfold Weave.carrierPolyfill?
  rw [h.conventions, h.polyfill?]

/-- Forwarders are the same: of each interface the same methods, and those that the class need not
get are the same. -/
theorem addForwarders (h : Alike s other) : Weave.addForwarders other = Weave.addForwarders s := by
  have hinterface : Forwarder.ofInterface other = Forwarder.ofInterface s := by
    funext name
    unfold Forwarder.ofInterface
    rw [h.conventions, h.scope.lookup]
  funext c
  unfold Weave.addForwarders Forwarder.needed Forwarder.implemented
  rw [h.scope.superclasses, h.scope.interfaceClosure, hinterface]

/-- **The preparing step** cannot tell the two apart, since none of its three parts can. They look
classes up by name, and never ask which class comes before another. -/
theorem prepare (h : Alike s other) : Weave.prepare other = Weave.prepare s := by
  have hcarrier : prepareCarrier other = prepareCarrier s := by
    funext c
    unfold prepareCarrier
    rw [h.carrierPolyfill?, h.conventions]
  have hlocals : retypeAllLocals other = retypeAllLocals s := by
    funext c
    unfold retypeAllLocals
    rw [h.conventions, h.polyfill?]
  funext c
  unfold Weave.prepare Step.andThen
  rw [hcarrier, hlocals, h.addForwarders]

/-- **The narrowing step** cannot tell the two apart: all that it asks for is the polyfill of a
carrier's interface. -/
theorem narrow (h : Alike s other) : Weave.narrow other = Weave.narrow s := by
  funext c
  unfold Weave.narrow narrowCarrier
  rw [h.carrierPolyfill?, h.conventions]

end Alike
end Surroundings

/-! ## Phases

A phase takes every class of a batch through one step, in the same surroundings. In another order it
therefore gives the same classes in that order. -/

namespace Weave

/-- The phases of weaving. -/
inductive Phase where
  | prepare
  | redirect
  | narrow
  deriving DecidableEq, Repr

namespace Phase

/-- The step that a phase takes every class through. -/
def step : Phase → Step
  | prepare => Weave.prepare
  | redirect => redirectCalls
  | narrow => Weave.narrow

/-- No phase can tell surroundings that are alike apart. -/
theorem step_congr (p : Phase) {s other : Surroundings} (h : s.Alike other) :
    p.step other = p.step s := by
  cases p with
  | prepare => exact h.prepare
  | redirect => exact h.redirectCalls
  | narrow => exact h.narrow

/-- A class keeps its name in every phase. So the names of a batch stay different from each
other. -/
theorem step_name (p : Phase) (s : Surroundings) (c : ClassFile) : (p.step s c).1.name = c.name := by
  cases p with
  | prepare => exact (prepare_keepsAll s c).outline.name
  | redirect => exact (redirectCalls_keepsAll s.conventions s c).outline.name
  | narrow => exact (narrowCarrier_kept s c).outline.name

end Phase

section Batch

variable {conventions : Conventions} {classpath : ClassIndex} {batch permuted : List ClassFile}

/-- A batch of different names in another order has surroundings that are alike. -/
theorem alike_surroundings (h : permuted.Perm batch) (hnames : (batch.map (·.name)).Nodup) :
    (surroundings conventions classpath batch).Alike
      (surroundings conventions classpath permuted) :=
  ⟨Scope.alike_of_batch (ClassIndex.alike_ofClasses h hnames), rfl⟩

/-- A phase of a batch in another order takes every class through the same step. The classes and the
reports come in the order of that batch. -/
theorem phase_perm (conventions : Conventions) (classpath : ClassIndex) (p : Phase)
    (h : permuted.Perm batch) (hnames : (batch.map (·.name)).Nodup) (before : List Diagnostic) :
    phase p.step conventions classpath ⟨permuted, before⟩
      = ⟨permuted.map fun c => (p.step (surroundings conventions classpath batch) c).1,
        before ++ permuted.flatMap fun c => (p.step (surroundings conventions classpath batch) c).2⟩
    := by
  have hstep : p.step { scope := .ofBatch permuted classpath, conventions }
      = p.step (surroundings conventions classpath batch) :=
    p.step_congr (alike_surroundings h hnames)
  unfold phase
  simp only [hstep, List.map_map, List.flatMap_map]
  rfl

/-- The classes after a phase come in the order of those before it. -/
theorem perm_phaseClasses (conventions : Conventions) (classpath : ClassIndex) (p : Phase)
    (h : permuted.Perm batch) :
    (permuted.map fun c => (p.step (surroundings conventions classpath batch) c).1).Perm
      (phaseClasses p.step conventions classpath batch) :=
  h.map _

/-- Names that differ before a phase differ after it, which lets the argument go on with the next
one. -/
theorem nodup_names_phaseClasses (conventions : Conventions) (classpath : ClassIndex) (p : Phase)
    (h : (batch.map (·.name)).Nodup) :
    ((phaseClasses p.step conventions classpath batch).map (·.name)).Nodup := by
  unfold phaseClasses
  rw [List.map_map]
  have hname : (fun c : ClassFile => c.name) ∘ (fun c =>
      (p.step (surroundings conventions classpath batch) c).1) = (·.name) :=
    funext fun c => p.step_name _ c
  rwa [hname]

/-- What weaving comes to for one class. -/
structure WovenClass where
  /-- What becomes of the class. -/
  result : ClassFile
  /-- What each phase reports on it. -/
  reports : Phase → List Diagnostic

/-- What weaving a batch comes to for one class of it. -/
def weaveClass (conventions : Conventions) (classpath : ClassIndex) (batch : List ClassFile)
    (c : ClassFile) : WovenClass :=
  let prepared := prepare (surroundings conventions classpath batch) c
  let redirected := redirectCalls (surroundings conventions classpath
    (phaseClasses prepare conventions classpath batch)) prepared.1
  let narrowed := narrow (surroundings conventions classpath
    (redirectedClasses conventions classpath batch)) redirected.1
  { result := narrowed.1
    reports := fun
      | .prepare => prepared.2
      | .redirect => redirected.2
      | .narrow => narrowed.2 }

/-- **A batch in another order** is woven to the same classes in that order, with the same reports
on each of them. Each phase makes the surroundings for the next from what the one before has given,
so the three are taken one after the other. -/
theorem weave_perm (h : permuted.Perm batch) (hnames : (batch.map (·.name)).Nodup) :
    let weaveClass := weaveClass conventions classpath batch
    weave conventions classpath permuted
      = { classes := permuted.map fun c => (weaveClass c).result
          diagnostics := [Phase.prepare, .redirect, .narrow].flatMap fun p =>
            permuted.flatMap fun c => (weaveClass c).reports p } := by
  -- Each phase starts from the classes that the one before it makes, in the new order.
  have hfirst := phase_perm conventions classpath .prepare h hnames []
  have hprepared := perm_phaseClasses conventions classpath .prepare h
  have hpreparedNames := nodup_names_phaseClasses conventions classpath .prepare hnames
  have hsecond := phase_perm conventions classpath .redirect hprepared hpreparedNames
  have hredirected := perm_phaseClasses conventions classpath .redirect hprepared
  have hredirectedNames := nodup_names_phaseClasses conventions classpath .redirect hpreparedNames
  have hthird := phase_perm conventions classpath .narrow hredirected hredirectedNames
  show phase Phase.narrow.step conventions classpath (phase Phase.redirect.step conventions
    classpath (phase Phase.prepare.step conventions classpath ⟨permuted, []⟩)) = _
  rw [hfirst, hsecond, hthird]
  simp only [List.map_map, List.flatMap_map, List.flatMap_cons, List.flatMap_nil, List.append_nil,
    List.nil_append, List.append_assoc, weaveClass, redirectedClasses, Phase.step,
    Function.comp_def]

end Batch
end Weave
end ClassLoom
