import ClassLoom.Proofs.Weave.FactoryPlans
import ClassLoom.Proofs.Weave.Settled

/-!
# What weaving keeps of a class

Weaving changes bodies and adds: fields and methods behind those of the class, slots behind
those of its pool. Only lambda carriers get other interfaces, and only they lose methods, their
old factories. A payload of an attribute stays as it was, and means the same, since no slot of
the pool moves.

* `KeepsOutline`: all of a class but its methods, through one step;
* `KeepsMethods`: its methods, in their order, with new ones behind them (`AddedMethod`);
* `kept_weave`: what becomes of every class of a woven batch.
-/

namespace ClassLoom

open ConstantPool

namespace Weave

open Member (Rebodied)

/-! ## The relations

There is a relation for what every step keeps of a class (`KeepsOutline`), one for its methods
(`KeepsMethods`), and one for both. They are transitive, so that the steps can be put one behind the
other; only narrowing keeps less, and it comes last (`Kept`). -/

/-- What a method is that weaving has added to a class. -/
inductive AddedMethod (conventions : Conventions) (className : String) (m : Member) : Prop where
  /-- The new factory of a lambda carrier. -/
  | factory (hcarrier : conventions.isLambdaCarrier className = true)
    (hname : m.name = conventions.replacementFactory)
    (haccess : m.access = Access.publicFlag ||| Access.staticFlag)
  /-- The static initializer of a lambda carrier. -/
  | initializer (hcarrier : conventions.isLambdaCarrier className = true)
    (hname : m.name = staticInitializer) (hdescriptor : m.descriptor = "()V")
    (haccess : m.access = Access.staticFlag)
  /-- A forwarder of a default method. -/
  | forwarder (haccess : m.access = Access.publicFlag)

/-- Whether weaving can have added a method, which then has a body and no other attribute. -/
structure IsAdded (conventions : Conventions) (className : String) (m : Member) : Prop where
  kind : AddedMethod conventions className m
  attributes : m.attributes.map (·.name) = [Code.attributeName]

/-- Whether a field is the one that holds the only instance of a lambda carrier. -/
structure IsInstanceField (conventions : Conventions) (className : String) (f : Member) : Prop where
  carrier : conventions.isLambdaCarrier className = true
  name : f.name = conventions.lambdaInstanceField
  attributes : f.attributes = []

/-- Whether a class has come from another one with all that it was but its methods: other
interfaces only where it is a carrier, more fields behind those it had, and a pool that has
grown. -/
structure KeepsOutline (conventions : Conventions) (old new : ClassFile) : Prop where
  minor : new.minor = old.minor
  major : new.major = old.major
  access : new.access = old.access
  name : new.name = old.name
  superName : new.superName = old.superName
  attributes : new.attributes = old.attributes
  pool : Grown old.pool new.pool
  fields : ∃ added, new.fields = old.fields ++ added
    ∧ ∀ f ∈ added, IsInstanceField conventions old.name f
  interfaces : new.interfaces = old.interfaces ∨ conventions.isLambdaCarrier old.name = true

/-- Whether all methods of a class are still there, in their order and in front of new ones, with
other bodies at most. -/
def KeepsMethods (conventions : Conventions) (className : String) (old new : List Member) : Prop :=
  ∃ kept added, new = kept ++ added ∧ List.Forall₂ Rebodied old kept
    ∧ ∀ m ∈ added, IsAdded conventions className m

/-- Whether a class has come from another one with all that it was, methods included. -/
structure KeepsAll (conventions : Conventions) (old new : ClassFile) : Prop where
  outline : KeepsOutline conventions old new
  methods : KeepsMethods conventions old.name old.methods new.methods

/-- Whether weaving may make one class of another one. All methods are kept, or all but the old
factories of a carrier. -/
structure Kept (conventions : Conventions) (old new : ClassFile) : Prop where
  outline : KeepsOutline conventions old new
  methods : KeepsMethods conventions old.name old.methods new.methods
    ∨ conventions.isLambdaCarrier old.name = true
      ∧ KeepsMethods conventions old.name
        (old.methods.filter (·.name ≠ conventions.lambdaFactory)) new.methods

section Relations

variable {conventions : Conventions} {className : String}

/-- Another body leaves a new method what it is. Later steps may redirect calls in it. -/
theorem IsAdded.rebodied {m m' : Member} (h : IsAdded conventions className m)
    (hsame : Rebodied m m') : IsAdded conventions className m' := by
  refine ⟨?_, hsame.attributeNames.trans h.attributes⟩
  cases h.kind with
  | factory hcarrier hname haccess =>
    exact .factory hcarrier (hsame.name.trans hname) (hsame.access.trans haccess)
  | initializer hcarrier hname hdescriptor haccess =>
    exact .initializer hcarrier (hsame.name.trans hname) (hsame.descriptor.trans hdescriptor)
      (hsame.access.trans haccess)
  | forwarder haccess => exact .forwarder (hsame.access.trans haccess)

namespace KeepsOutline

theorem of_pool {c : ClassFile} {pool : ConstantPool} {methods : List Member}
    (h : Grown c.pool pool) : KeepsOutline conventions c { c with methods, pool } :=
  ⟨rfl, rfl, rfl, rfl, rfl, rfl, h, ⟨[], (List.append_nil _).symm, by simp⟩, .inl rfl⟩

theorem refl (c : ClassFile) : KeepsOutline conventions c c := of_pool (Grown.refl _)

/-- Two steps that keep the outline do so together. A step that may change interfaces needs a
carrier for it, and the name of the class is the same for both. -/
theorem trans {a b c : ClassFile} (hab : KeepsOutline conventions a b)
    (hbc : KeepsOutline conventions b c) : KeepsOutline conventions a c where
  minor := hbc.minor.trans hab.minor
  major := hbc.major.trans hab.major
  access := hbc.access.trans hab.access
  name := hbc.name.trans hab.name
  superName := hbc.superName.trans hab.superName
  attributes := hbc.attributes.trans hab.attributes
  pool := hab.pool.trans hbc.pool
  -- The second step adds fields behind those that the first has added.
  fields := by
    obtain ⟨first, hfirst, hfirstAdded⟩ := hab.fields
    obtain ⟨second, hsecond, hsecondAdded⟩ := hbc.fields
    rw [hab.name] at hsecondAdded
    refine ⟨first ++ second, ?_, List.forall_mem_append.2 ⟨hfirstAdded, hsecondAdded⟩⟩
    rw [hsecond, hfirst, List.append_assoc]
  interfaces := by
    rcases hab.interfaces with hsame | hcarrier
    · rcases hbc.interfaces with hsame' | hcarrier
      · exact .inl (hsame'.trans hsame)
      · exact .inr (hab.name ▸ hcarrier)
    · exact .inr hcarrier

/-- The flags of a class stay, so that it is an interface before and after. -/
theorem isInterface_eq {old new : ClassFile} (h : KeepsOutline conventions old new) :
    new.isInterface = old.isInterface := by
  unfold ClassFile.isInterface
  rw [h.access]

end KeepsOutline

namespace KeepsMethods

theorem append (ms : List Member) {added : List Member}
    (h : ∀ m ∈ added, IsAdded conventions className m) :
    KeepsMethods conventions className ms (ms ++ added) :=
  ⟨ms, added, rfl, List.forall₂_same.2 fun m _ => .refl m, h⟩

theorem of_forall₂ {old new : List Member} (h : List.Forall₂ Rebodied old new) :
    KeepsMethods conventions className old new :=
  ⟨new, [], (List.append_nil new).symm, h, by simp⟩

theorem refl (ms : List Member) : KeepsMethods conventions className ms ms :=
  of_forall₂ (List.forall₂_same.2 fun m _ => .refl m)

/-- Two steps that keep methods do so together: what the first has added is kept by the second. -/
theorem trans {as bs cs : List Member} (hab : KeepsMethods conventions className as bs)
    (hbc : KeepsMethods conventions className bs cs) :
    KeepsMethods conventions className as cs := by
  obtain ⟨kept, added, rfl, hkept, hadded⟩ := hab
  obtain ⟨kept', added', rfl, hkept', hadded'⟩ := hbc
  -- What was added first is in front of what was added then.
  obtain ⟨front, back, rfl, hfront, hback⟩ := exists_of_forall₂_append hkept'
  refine ⟨front, back ++ added', List.append_assoc .., ?_, ?_⟩
  · exact forall₂_trans (fun _ _ _ => .trans) hkept hfront
  · refine List.forall_mem_append.2 ⟨fun m' hm' => ?_, hadded'⟩
    obtain ⟨m, hm, hsame⟩ := exists_of_mem_right hback hm'
    exact (hadded m hm).rebodied hsame

/-- A choice of methods by their names keeps those that it takes. New bodies change no names. -/
theorem filter {old new : List Member} (h : KeepsMethods conventions className old new)
    (p : String → Bool) :
    KeepsMethods conventions className (old.filter (p ·.name)) (new.filter (p ·.name)) := by
  obtain ⟨kept, added, rfl, hkept, hadded⟩ := h
  refine ⟨kept.filter (p ·.name), added.filter (p ·.name), List.filter_append .., ?_,
    fun m hm => hadded m (List.mem_filter.1 hm).1⟩
  clear hadded
  -- A name and its new one are the same, so both sides take the same methods.
  induction hkept with
  | nil => exact .nil
  | cons hhead _ ih =>
    rw [List.filter_cons, List.filter_cons, hhead.name]
    split
    · exact .cons hhead ih
    · exact ih

/-- Every method has one of its name and type among those that are kept. -/
theorem exists_of_mem {old new : List Member} (h : KeepsMethods conventions className old new)
    {m : Member} (hm : m ∈ old) : ∃ m' ∈ new, Rebodied m m' := by
  obtain ⟨kept, added, rfl, hkept, _⟩ := h
  obtain ⟨m', hm', hsame⟩ := exists_of_mem_left hkept hm
  exact ⟨m', List.mem_append_left _ hm', hsame⟩

end KeepsMethods

namespace KeepsAll

theorem refl (c : ClassFile) : KeepsAll conventions c c := ⟨.refl c, .refl _⟩

theorem trans {a b c : ClassFile} (hab : KeepsAll conventions a b)
    (hbc : KeepsAll conventions b c) : KeepsAll conventions a c :=
  ⟨hab.outline.trans hbc.outline, hab.methods.trans (hab.outline.name ▸ hbc.methods)⟩

/-- Steps that keep all methods, and one that may take old factories away behind them. -/
theorem trans_kept {a b c : ClassFile} (hab : KeepsAll conventions a b)
    (hbc : Kept conventions b c) : Kept conventions a c := by
  have hmethods := hbc.methods
  rw [hab.outline.name] at hmethods
  refine ⟨hab.outline.trans hbc.outline, ?_⟩
  rcases hmethods with hall | ⟨hcarrier, hrest⟩
  · exact .inl (hab.methods.trans hall)
  · exact .inr ⟨hcarrier, (hab.methods.filter (· ≠ conventions.lambdaFactory)).trans hrest⟩

end KeepsAll
end Relations

/-! ## Lambda carriers

A carrier gets a factory, and perhaps a field with an initializer. All else of it is kept. -/

section Carriers

variable {s : Surroundings} {c : ClassFile} {conventions : Conventions} {plan : FactoryPlan}

/-- A class with a carrier's polyfill has the name of a carrier. -/
theorem isLambdaCarrier_of_carrierPolyfill? {polyfill : Polyfill}
    (h : carrierPolyfill? s c = some polyfill) : s.conventions.isLambdaCarrier c.name = true := by
  unfold carrierPolyfill? at h
  split at h
  · cases h
  · next hcarrier => simpa using hcarrier

/-- Giving one method another body leaves all methods what they are. The initializer gets one when
it has to make the instance as well. -/
theorem rebodied_set {ms : List Member} {i : Nat} {old new : Member} (hold : ms[i]? = some old)
    (hsame : Rebodied old new) : List.Forall₂ Rebodied ms (ms.set i new) := by
  -- Position by position: the method at `i` has another body, and all others are the same.
  rw [List.forall₂_iff_get]
  refine ⟨List.length_set.symm, fun j hj hj' => ?_⟩
  simp only [List.get_eq_getElem, List.getElem_set]
  split
  · next hij =>
    subst hij
    rw [List.getElem?_eq_getElem hj] at hold
    cases hold
    exact hsame
  · exact .refl _

/-- What a plan gives a carrier leaves it all its methods. The factory comes behind them, and an
initializer is extended in its place or comes behind them as well. -/
theorem Plans.keepsMethods (h : Plans conventions c plan)
    (hcarrier : conventions.isLambdaCarrier c.name = true) :
    KeepsMethods conventions c.name c.methods (plan.commit c).methods := by
  have hfactory : ∀ m ∈ [plan.factory], IsAdded conventions c.name m := by
    obtain ⟨_, info, _, hfactory⟩ := h.factory
    rw [List.forall_mem_singleton, hfactory]
    exact ⟨.factory hcarrier rfl rfl, rfl⟩
  unfold FactoryPlan.commit
  simp only
  cases hclinit : plan.clinit with
  | none => exact .append _ hfactory
  | some planned =>
    -- The initializer comes first: behind the methods, or in the place of the one that there was.
    cases h.clinit planned hclinit with
    | added info _ =>
      refine (KeepsMethods.append _ (List.forall_mem_singleton.2 ?_)).trans (.append _ hfactory)
      exact ⟨.initializer hcarrier rfl rfl rfl, rfl⟩
    | extended i old m hold hsame =>
      exact (KeepsMethods.of_forall₂ (rebodied_set hold hsame)).trans (.append _ hfactory)

/-- The interface that a carrier gets leaves its methods to the plan. -/
theorem methods_addInterface (name : String) (c : ClassFile) :
    (addInterface name c).methods = c.methods := by
  unfold addInterface
  split <;> rfl

/-- Preparing a carrier keeps all that it is: of the outline the fields, the interfaces and the pool
get more. -/
theorem prepareCarrier_keepsAll (s : Surroundings) (c : ClassFile) :
    KeepsAll s.conventions c (prepareCarrier s c).1 := by
  rcases prepareCarrier_cases s c with ⟨hsame, _⟩ | ⟨polyfill, plan, pool, hcarrier, hplan, hnew⟩
  · rw [hsame]
    exact .refl c
  · rw [hnew]
    have hgrown := (FactoryPlan.appends_of? s.conventions c).grown_of_ok hplan
    have hcarrier := isLambdaCarrier_of_carrierPolyfill? hcarrier
    have hplans := plans_of_of? hplan
    -- The one field that may come is that of the instance.
    have hfields : ∀ f ∈ plan.instanceField.toList, IsInstanceField s.conventions c.name f := by
      intro f hf
      obtain ⟨hkey, hattributes, _⟩ := hplans.instanceField f (Option.mem_toList.1 hf)
      exact ⟨hcarrier, congrArg Prod.fst hkey, hattributes⟩
    constructor
    · unfold addInterface
      split
      · exact ⟨rfl, rfl, rfl, rfl, rfl, rfl, hgrown, ⟨_, rfl, hfields⟩, .inl rfl⟩
      · exact ⟨rfl, rfl, rfl, rfl, rfl, rfl, hgrown, ⟨_, rfl, hfields⟩, .inr hcarrier⟩
    · rw [methods_addInterface]
      exact hplans.keepsMethods hcarrier

end Carriers

/-! ## Methods in turn

A step that takes methods in turn replaces each by one that has another body at most. A method for
which it fails stays as it is. -/

/-- Attempts that change no more than the body of a method do so of all. -/
theorem rebodied_attemptAll {attempt : Attempt} {pool : ConstantPool} {ms : List Member}
    (h : ∀ ⦃pool m m' pool'⦄, attempt pool m = some (m', pool') → Rebodied m m') :
    List.Forall₂ Rebodied ms (attemptAll attempt pool ms).1 := by
  induction ms generalizing pool with
  | nil => exact .nil
  | cons m ms ih =>
    refine .cons ?_ ih
    cases hattempt : attempt pool m with
    | none => exact .refl m
    | some result => exact h hattempt

/-- Retyping local variables changes no more than the body of a method. -/
theorem rebodied_of_retypeLocals {legacy polyfill : String} {pool pool' : ConstantPool}
    {m m' : Member} (h : retypeLocals legacy polyfill m pool = .ok (some m') pool') :
    Rebodied m m' := by
  obtain ⟨_, _, _, _, _, _, _, hcode, _, _, _, _, _, hset⟩ := retypeLocals_eq_some h
  exact Member.rebodied_of_setCode hcode hset

/-- Neither does redirecting its calls. -/
theorem rebodied_of_redirectMethod {s : Surroundings} {className : String}
    {pool pool' : ConstantPool} {m : Member} {result : Member × List Diagnostic}
    (h : redirectMethod s className m pool = .ok result pool') : Rebodied m result.1 := by
  cases redirectMethod_eq_ok h with
  | bodiless _ => exact .refl m
  | untouched _ _ _ _ => exact .refl m
  | redirected _ _ _ _ _ _ _ hcode _ _ _ hset => exact Member.rebodied_of_setCode hcode hset

section Turns

variable (conventions : Conventions)

theorem retypeAllLocals_rebodied (s : Surroundings) (c : ClassFile) :
    List.Forall₂ Rebodied c.methods (retypeAllLocals s c).1.methods := by
  cases hpolyfill : s.polyfill? s.conventions.localVariableType with
  | none =>
    simp only [retypeAllLocals, hpolyfill]
    exact List.forall₂_same.2 fun m _ => .refl m
  | some polyfill =>
    rw [retypeAllLocals_fst hpolyfill]
    exact rebodied_attemptAll fun _ _ _ _ h => rebodied_of_retypeLocals (retyping_eq_some.1 h)

/-- So retyping the local variables of a class keeps all that it is. -/
theorem retypeAllLocals_keepsAll (s : Surroundings) (c : ClassFile) :
    KeepsAll conventions c (retypeAllLocals s c).1 := by
  refine ⟨?_, .of_forall₂ (retypeAllLocals_rebodied s c)⟩
  have hgrown := (retypeAllLocals_extends s c).pool.grown
  cases hpolyfill : s.polyfill? s.conventions.localVariableType with
  | none =>
    simp only [retypeAllLocals, hpolyfill]
    exact .refl c
  | some polyfill =>
    rw [retypeAllLocals_fst hpolyfill] at hgrown ⊢
    exact .of_pool hgrown

theorem redirectCalls_rebodied (s : Surroundings) (c : ClassFile) :
    List.Forall₂ Rebodied c.methods (redirectCalls s c).1.methods := by
  rw [redirectCalls_fst]
  refine rebodied_attemptAll fun _ _ _ _ h => ?_
  obtain ⟨diagnostics, hrun⟩ := redirecting_eq_some.1 h
  exact rebodied_of_redirectMethod hrun

/-- Redirecting the calls of a class keeps all that it is. -/
theorem redirectCalls_keepsAll (s : Surroundings) (c : ClassFile) :
    KeepsAll conventions c (redirectCalls s c).1 := by
  refine ⟨?_, .of_forall₂ (redirectCalls_rebodied s c)⟩
  have hgrown := (redirectCalls_extends s c).pool.grown
  rw [redirectCalls_fst] at hgrown ⊢
  exact .of_pool hgrown

end Turns

/-! ## Forwarders

Forwarders are new methods behind the old ones. -/

section Forwarders

variable (conventions : Conventions)

/-- The method that a forwarder is: public, with the name and the type that it forwards, and a
body. -/
theorem Forwarder.eq_of_method {f : Forwarder} {m : Member} {pool pool' : ConstantPool}
    (h : f.method pool = .ok m pool') : ∃ info, m =
      { access := Access.publicFlag, name := f.name, descriptor := f.descriptor
        attributes := [{ name := Code.attributeName, info }] } := by
  obtain ⟨target, _, _, h⟩ := Interning.bind_eq_ok.1 h
  obtain ⟨bytecode, _, hset⟩ := Interning.lift_bind_eq_ok.1 h
  exact Member.eq_of_setCode rfl hset

/-- A forwarder that can be made is one more method, behind all others. -/
theorem addTo_keepsAll (c : ClassFile) (diagnostics : List Diagnostic) (f : Forwarder) :
    KeepsAll conventions c (Forwarder.addTo (c, diagnostics) f).1 := by
  rcases addTo_cases c diagnostics f with ⟨hsame, _⟩ | ⟨m, pool, hmethod, hnew⟩
  · rw [hsame]
    exact .refl c
  · rw [hnew]
    refine ⟨.of_pool (f.appends_method.grown_of_ok hmethod), .append _ ?_⟩
    obtain ⟨info, hm⟩ := f.eq_of_method hmethod
    rw [List.forall_mem_singleton, hm]
    exact ⟨.forwarder rfl, rfl⟩

/-- Several forwarders are so many methods more. -/
theorem foldl_addTo_keepsAll (fs : List Forwarder) (c : ClassFile) (diagnostics : List Diagnostic) :
    KeepsAll conventions c (fs.foldl Forwarder.addTo (c, diagnostics)).1 := by
  induction fs generalizing c diagnostics with
  | nil => exact .refl c
  | cons f fs ih => exact (addTo_keepsAll conventions c diagnostics f).trans (ih _ _)

/-- Adding the forwarders of a class keeps all that it is; an interface gets none. -/
theorem addForwarders_keepsAll (s : Surroundings) (c : ClassFile) :
    KeepsAll conventions c (addForwarders s c).1 := by
  unfold addForwarders
  split
  · exact .refl c
  · exact foldl_addTo_keepsAll conventions _ c []

end Forwarders

/-! ## Phases

What holds of every step holds of a phase, class by class, and so of all three. -/

/-- The first step keeps all, since its three parts do. -/
theorem prepare_keepsAll (s : Surroundings) (c : ClassFile) :
    KeepsAll s.conventions c (prepare s c).1 := by
  rw [prepare_fst]
  exact (prepareCarrier_keepsAll s c).trans
    ((retypeAllLocals_keepsAll _ s _).trans (addForwarders_keepsAll _ s _))

/-- **Narrowing is the one step that takes methods away**, from carriers: those with the name of the
old factory. -/
theorem narrowCarrier_kept (s : Surroundings) (c : ClassFile) :
    Kept s.conventions c (narrowCarrier s c) := by
  unfold narrowCarrier
  split
  · exact ⟨.refl c, .inl (.refl _)⟩
  · next polyfill hpolyfill =>
    have hcarrier := isLambdaCarrier_of_carrierPolyfill? hpolyfill
    split
    · refine ⟨⟨rfl, rfl, rfl, rfl, rfl, rfl, Grown.refl _, ?_, .inr hcarrier⟩, .inr ⟨hcarrier, ?_⟩⟩
      · exact ⟨[], (List.append_nil _).symm, by simp⟩
      · exact .refl _
    · exact ⟨.refl c, .inl (.refl _)⟩

/-- What a step does to every class is done in a phase, to each class in its place. -/
theorem forall₂_phaseClasses {step : Step} {conventions : Conventions} {classpath : ClassIndex}
    {classes : List ClassFile} {R : ClassFile → ClassFile → Prop}
    (h : ∀ c ∈ classes, R c (step (surroundings conventions classpath classes) c).1) :
    List.Forall₂ R classes (phaseClasses step conventions classpath classes) := by
  unfold phaseClasses
  rw [List.forall₂_map_right_iff, List.forall₂_same]
  exact h

/-- The classes of a batch when their calls have been redirected. -/
def redirectedClasses (conventions : Conventions) (classpath : ClassIndex)
    (batch : List ClassFile) : List ClassFile :=
  phaseClasses redirectCalls conventions classpath
    (phaseClasses prepare conventions classpath batch)

/-- What the first two steps do to every class, one behind the other, they do to the classes of a
batch. -/
theorem forall₂_redirectedClasses {conventions : Conventions} {classpath : ClassIndex}
    {batch : List ClassFile} {R : ClassFile → ClassFile → Prop}
    (htrans : ∀ a b c, R a b → R b c → R a c)
    (hprepare : ∀ c ∈ batch, R c (prepare (surroundings conventions classpath batch) c).1)
    (hredirect : ∀ s c, R c (redirectCalls s c).1) :
    List.Forall₂ R batch (redirectedClasses conventions classpath batch) :=
  forall₂_trans htrans (forall₂_phaseClasses hprepare)
    (forall₂_phaseClasses fun c _ => hredirect _ c)

/-- **What weaving keeps**: every class, in its place in the batch. The first two steps keep all of
it, and the third all but old factories. -/
theorem kept_weave (conventions : Conventions) (classpath : ClassIndex) (batch : List ClassFile) :
    List.Forall₂ (Kept conventions) batch (weave conventions classpath batch).classes := by
  rw [weave_classes]
  -- Only the last phase may take old factories away.
  have hredirected : List.Forall₂ (KeepsAll conventions) batch
      (redirectedClasses conventions classpath batch) := by
    refine forall₂_redirectedClasses (fun _ _ _ => .trans) (fun c _ => ?_) fun s c => ?_
    · exact prepare_keepsAll (surroundings conventions classpath batch) c
    · exact redirectCalls_keepsAll conventions s c
  have hnarrowed : List.Forall₂ (Kept conventions) (redirectedClasses conventions classpath batch)
      (phaseClasses narrow conventions classpath (redirectedClasses conventions classpath batch)) :=
    forall₂_phaseClasses fun c _ => narrowCarrier_kept (surroundings conventions classpath _) c
  have hbehind (a b c : ClassFile) (hab : KeepsAll conventions a b) (hbc : Kept conventions b c) :
      Kept conventions a c := hab.trans_kept hbc
  exact forall₂_trans hbehind hredirected hnarrowed

end Weave
end ClassLoom
