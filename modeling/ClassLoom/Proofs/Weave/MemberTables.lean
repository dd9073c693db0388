import ClassLoom.Proofs.Weave.FactoryCalls
import ClassLoom.Proofs.Weave.Forwarders

/-!
# Tables without doubles

A class has no two fields and no two methods of one name and type, and no interface twice. Weaving
adds to all three tables: forwarders are chosen among methods that the class does not have, and new
factories and initializers go by names that it does not use. Only the field for a carrier's instance
can be a double, since a field of its name and type that is not static does not count as one.

* `prepare_methods_nodup`: the methods that a class gets;
* `DoublesInstance`: the one collision;
* `nodup_weave`: the tables of woven classes.
-/

namespace ClassLoom

/-- What two members of a table cannot share. -/
def Member.key (m : Member) : String × String := (m.name, m.descriptor)

namespace Weave

open Member (Rebodied)

/-! ## Steps that leave all but methods

Of the steps only the preparation of carriers and narrowing change fields or interfaces. All others
are told apart by the methods and the pool alone. -/

/-- Whether two classes differ in their methods and in their pools at most. -/
def OnlyMethods (old new : ClassFile) : Prop := ∃ methods pool, new = { old with methods, pool }

section OnlyMethods

variable {old new : ClassFile}

theorem OnlyMethods.refl (c : ClassFile) : OnlyMethods c c := ⟨c.methods, c.pool, rfl⟩

/-- Steps that change methods only do so one behind the other. -/
theorem OnlyMethods.trans {a b c : ClassFile} (hab : OnlyMethods a b) (hbc : OnlyMethods b c) :
    OnlyMethods a c := by
  obtain ⟨_, _, rfl⟩ := hab
  obtain ⟨methods, pool, rfl⟩ := hbc
  exact ⟨methods, pool, rfl⟩

theorem OnlyMethods.name (h : OnlyMethods old new) : new.name = old.name := by
  obtain ⟨_, _, rfl⟩ := h
  rfl

theorem OnlyMethods.fields (h : OnlyMethods old new) : new.fields = old.fields := by
  obtain ⟨_, _, rfl⟩ := h
  rfl

theorem OnlyMethods.interfaces (h : OnlyMethods old new) : new.interfaces = old.interfaces := by
  obtain ⟨_, _, rfl⟩ := h
  rfl

/-- Retyping local variables changes methods only. -/
theorem retypeAllLocals_onlyMethods (s : Surroundings) (c : ClassFile) :
    OnlyMethods c (retypeAllLocals s c).1 := by
  cases hpolyfill : s.polyfill? s.conventions.localVariableType with
  | none =>
    simp only [retypeAllLocals, hpolyfill]
    exact .refl c
  | some polyfill =>
    rw [retypeAllLocals_fst hpolyfill]
    exact ⟨_, _, rfl⟩

theorem foldl_addTo_onlyMethods (fs : List Forwarder) (c : ClassFile)
    (diagnostics : List Diagnostic) :
    OnlyMethods c (fs.foldl Forwarder.addTo (c, diagnostics)).1 := by
  induction fs generalizing c diagnostics with
  | nil => exact .refl c
  | cons f fs ih =>
    have hfirst : OnlyMethods c (Forwarder.addTo (c, diagnostics) f).1 := by
      rcases addTo_cases c diagnostics f with ⟨hsame, _⟩ | ⟨m, pool, _, hnew⟩
      · rw [hsame]
        exact .refl c
      · rw [hnew]
        exact ⟨_, _, rfl⟩
    exact hfirst.trans (ih _ _)

/-- Adding forwarders changes methods only. -/
theorem addForwarders_onlyMethods (s : Surroundings) (c : ClassFile) :
    OnlyMethods c (addForwarders s c).1 := by
  unfold addForwarders
  split
  · exact .refl c
  · exact foldl_addTo_onlyMethods _ c []

theorem redirectCalls_onlyMethods (s : Surroundings) (c : ClassFile) :
    OnlyMethods c (redirectCalls s c).1 := by
  rw [redirectCalls_fst]
  exact ⟨_, _, rfl⟩

/-- Behind the preparation of carriers, only methods change until the last phase. -/
theorem prepared_onlyMethods (s : Surroundings) (c : ClassFile) :
    OnlyMethods (prepareCarrier s c).1 (prepare s c).1 := by
  rw [prepare_fst]
  exact (retypeAllLocals_onlyMethods s _).trans (addForwarders_onlyMethods s _)

end OnlyMethods

/-! ## Methods

A class may not have two methods of one name and descriptor. Two steps add methods: carriers get a
factory and maybe an initializer, and classes get forwarders. Both look first what there is. -/

/-- A member makes a double behind a table where the table has its key. -/
theorem nodup_keys_concat {ms : List Member} {m : Member} :
    ((ms ++ [m]).map Member.key).Nodup
      ↔ m.key ∉ ms.map Member.key ∧ (ms.map Member.key).Nodup := by
  rw [List.map_append, List.map_singleton, ← List.concat_eq_append, List.nodup_concat]

/-- Members with other bodies have the same keys. -/
theorem keys_of_rebodied {old new : List Member} (h : List.Forall₂ Rebodied old new) :
    new.map Member.key = old.map Member.key := by
  induction h with
  | nil => rfl
  | cons hhead _ ih =>
    rw [List.map_cons, List.map_cons, ih, Member.key, Member.key, hhead.name, hhead.descriptor]

namespace Forwarder

/-- Forwarders are chosen once for each method, and for none that is taken. Each that is chosen is
taken from then on. -/
theorem nodup_firstOfEach (taken : List (String × String)) (fs : List Forwarder) :
    ((firstOfEach taken fs).map key).Nodup ∧ ∀ f ∈ firstOfEach taken fs, f.key ∉ taken := by
  induction fs generalizing taken with
  | nil => simp [firstOfEach]
  | cons f fs ih =>
    rw [firstOfEach]
    split
    · exact ih taken
    · next hfree =>
      obtain ⟨hnodup, hfresh⟩ := ih (f.key :: taken)
      constructor
      · refine List.nodup_cons.2 ⟨fun hmem => ?_, hnodup⟩
        obtain ⟨g, hg, hkey⟩ := List.mem_map.1 hmem
        exact hfresh g hg (hkey ▸ List.mem_cons_self ..)
      · refine List.forall_mem_cons.2 ⟨by simpa using hfree, fun g hg htaken => ?_⟩
        exact hfresh g hg (List.mem_cons_of_mem _ htaken)

end Forwarder

/-- The forwarders that a class gets are among those that it should get, in their order. Those are
left out whose method could not be made. -/
theorem keys_foldl_addTo (fs : List Forwarder) (c : ClassFile) (diagnostics : List Diagnostic) :
    ∃ made : List Forwarder, made.Sublist fs
      ∧ (fs.foldl Forwarder.addTo (c, diagnostics)).1.methods.map Member.key
        = c.methods.map Member.key ++ made.map Forwarder.key := by
  induction fs generalizing c diagnostics with
  | nil => exact ⟨[], .slnil, (List.append_nil _).symm⟩
  | cons f fs ih =>
    obtain ⟨made, hmade, hkeys⟩ := ih (Forwarder.addTo (c, diagnostics) f).1
      (Forwarder.addTo (c, diagnostics) f).2
    rw [List.foldl_cons, hkeys]
    rcases addTo_cases c diagnostics f with ⟨hsame, _⟩ | ⟨m, pool, hmethod, hnew⟩
    · exact ⟨made, hmade.cons f, by rw [hsame]⟩
    · obtain ⟨info, rfl⟩ := f.eq_of_method hmethod
      refine ⟨f :: made, hmade.cons_cons f, ?_⟩
      rw [hnew, List.map_append, List.append_assoc]
      rfl

/-- A factory returns a carrier, and an initializer nothing. So the two have different descriptors,
whatever their names. -/
theorem newFactory_key_ne (conventions : Conventions) (className : String)
    (params : List FieldType) :
    (newFactory conventions className params).key ≠ (staticInitializer, "()V") := by
  intro h
  have hlast := congrArg (fun key => key.2.toList.reverse.head?) h
  simp [Member.key, newFactory] at hlast

section Methods

variable {s : Surroundings} {c : ClassFile} {conventions : Conventions} {plan : FactoryPlan}

/-- What a plan gives a class goes by names that the class does not use. The factory has a new name,
and an initializer is only added where there is none. -/
theorem Plans.methods_nodup (h : Plans conventions c plan)
    (hmethods : (c.methods.map Member.key).Nodup) :
    ((plan.commit c).methods.map Member.key).Nodup := by
  obtain ⟨params, info, hplannable, hfactory⟩ := h.factory
  have hkey : plan.factory.key = (newFactory conventions c.name params).key := by
    rw [hfactory]
    rfl
  have hfresh : plan.factory.key ∉ c.methods.map Member.key := by
    intro hmem
    obtain ⟨m, hm, hsame⟩ := List.mem_map.1 hmem
    exact hplannable.fresh m hm (congrArg Prod.fst (hsame.trans hkey))
  unfold FactoryPlan.commit
  simp only
  rw [nodup_keys_concat]
  -- An initializer comes behind the methods, or one of them is extended in its place.
  cases hclinit : plan.clinit with
  | none => exact ⟨hfresh, hmethods⟩
  | some planned =>
    cases h.clinit planned hclinit with
    | added info hnone =>
      have hinitializer : (staticInitializer, "()V") ∉ c.methods.map Member.key := by
        intro hmem
        obtain ⟨m, hm, hsame⟩ := List.mem_map.1 hmem
        exact hnone m hm (Prod.mk.inj hsame)
      refine ⟨?_, nodup_keys_concat.2 ⟨hinitializer, hmethods⟩⟩
      rw [List.map_append, List.mem_append, List.map_singleton, List.mem_singleton]
      rintro (hmem | hsame)
      · exact hfresh hmem
      · exact newFactory_key_ne conventions c.name params (hkey.symm.trans hsame)
    | extended i old m hold hsame =>
      simp only
      rw [keys_of_rebodied (rebodied_set hold hsame)]
      exact ⟨hfresh, hmethods⟩

/-- So a prepared carrier has no two methods of one key. -/
theorem prepareCarrier_methods_nodup (hmethods : (c.methods.map Member.key).Nodup) :
    ((prepareCarrier s c).1.methods.map Member.key).Nodup := by
  rcases prepareCarrier_cases s c with ⟨hsame, _⟩ | ⟨polyfill, plan, pool, _, hplan, hnew⟩
  · rwa [hsame]
  · rw [hnew, methods_addInterface]
    exact (plans_of_of? hplan).methods_nodup hmethods

/-- The forwarders that a class needs are for methods that it does not have. Each is chosen once for
a method, and never for one that is there. -/
theorem addForwarders_methods_nodup (hmethods : (c.methods.map Member.key).Nodup) :
    ((addForwarders s c).1.methods.map Member.key).Nodup := by
  unfold addForwarders
  split
  · exact hmethods
  · obtain ⟨made, hmade, hkeys⟩ := keys_foldl_addTo (Forwarder.needed s c) c []
    obtain ⟨hnodup, hfresh⟩ := Forwarder.nodup_firstOfEach (Forwarder.implemented s c)
      ((s.scope.interfaceClosure c.name).flatMap (Forwarder.ofInterface s))
    rw [hkeys]
    refine List.nodup_append.2 ⟨hmethods, (hmade.map Forwarder.key).nodup hnodup, ?_⟩
    rintro _ hold _ hnew rfl
    obtain ⟨f, hf, hkey⟩ := List.mem_map.1 hnew
    refine hfresh f (hmade.subset hf) ?_
    rw [hkey]
    exact List.mem_append_left _ hold

/-- **A class that is prepared gets no method that it has.** -/
theorem prepare_methods_nodup (hmethods : (c.methods.map Member.key).Nodup) :
    ((prepare s c).1.methods.map Member.key).Nodup := by
  rw [prepare_fst]
  refine addForwarders_methods_nodup ?_
  rw [keys_of_rebodied (retypeAllLocals_rebodied s _)]
  exact prepareCarrier_methods_nodup hmethods

end Methods

/-! ## Interfaces and fields

Interfaces are added only where they are missing. A field is added where no static field of its name
and type is there, and that is not enough: a field that is not static has the same name and type. -/

section Carriers

variable {s : Surroundings} {c : ClassFile}

/-- The interface that a carrier gets is none that it has. It is added only if it is not listed. -/
theorem prepareCarrier_interfaces_nodup (hinterfaces : c.interfaces.Nodup) :
    (prepareCarrier s c).1.interfaces.Nodup := by
  rcases prepareCarrier_cases s c with ⟨hsame, _⟩ | ⟨polyfill, plan, pool, _, _, hnew⟩
  · rwa [hsame]
  · rw [hnew]
    unfold addInterface
    split
    · exact hinterfaces
    · next hfree =>
      have hfree : polyfill.name ∉ (plan.commit { c with pool }).interfaces := by
        simpa using hfree
      simp only
      rw [← List.concat_eq_append]
      exact List.Nodup.concat hfree hinterfaces

/-- Whether a carrier gets a field for its only instance beside one of the same name and type that
is not static. -/
structure DoublesInstance (conventions : Conventions) (old new : ClassFile) : Prop where
  gains : new.fields ≠ old.fields
  hidden : ∃ f ∈ old.fields, f.key = instanceKey conventions old.name ∧ f.isStatic = false

/-- Where no static field holds the instance of a carrier, a field of that name and type is not
static. -/
theorem exists_hidden {conventions : Conventions} (hinstance : ¬ HasInstance conventions c)
    (hmem : instanceKey conventions c.name ∈ c.fields.map Member.key) :
    ∃ f ∈ c.fields, f.key = instanceKey conventions c.name ∧ f.isStatic = false := by
  obtain ⟨f, hf, hkey⟩ := List.mem_map.1 hmem
  have hsome : (Member.find? (instanceKey conventions c.name).1
      (instanceKey conventions c.name).2 c.fields).isSome := by
    rw [Member.find?, List.find?_isSome]
    exact ⟨f, hf, by simp [← hkey, Member.key]⟩
  obtain ⟨first, hfirst⟩ := Option.isSome_iff_exists.1 hsome
  have hsame := List.find?_some hfirst
  simp only [Bool.and_eq_true, decide_eq_true_eq] at hsame
  refine ⟨first, List.mem_of_find?_eq_some hfirst, Prod.ext hsame.1 hsame.2, ?_⟩
  rw [← Bool.not_eq_true]
  exact fun hstatic => hinstance ⟨first, hfirst, hstatic⟩

/-- A class with the fields that preparing gives has no doubles but that one. The static instance is
looked for among static fields only. -/
theorem fields_nodup_iff {new : ClassFile} (hnew : new.fields = (prepareCarrier s c).1.fields)
    (hfields : (c.fields.map Member.key).Nodup) :
    (new.fields.map Member.key).Nodup ↔ ¬ DoublesInstance s.conventions c new := by
  -- Without a new field both sides hold.
  have hnone (hsame : new.fields = c.fields) :
      (new.fields.map Member.key).Nodup ↔ ¬ DoublesInstance s.conventions c new := by
    rw [hsame]
    exact ⟨fun _ hdoubles => hdoubles.gains hsame, fun _ => hfields⟩
  rcases prepareCarrier_cases s c with ⟨hsame, _⟩ | ⟨polyfill, plan, pool, _, hplan, hprepared⟩
  · exact hnone (by rw [hnew, hsame])
  · have hadded : new.fields = c.fields ++ plan.instanceField.toList := by
      rw [hnew, hprepared]
      unfold addInterface
      split <;> rfl
    cases hfield : plan.instanceField with
    | none =>
      rw [hfield, Option.toList_none, List.append_nil] at hadded
      exact hnone hadded
    | some f =>
      obtain ⟨hkey, _, hinstance⟩ := (plans_of_of? hplan).instanceField f hfield
      have hkey : f.key = instanceKey s.conventions c.name := hkey
      rw [hfield, Option.toList_some] at hadded
      rw [hadded, nodup_keys_concat, hkey]
      -- The new field has the key of the instance. It is doubled just where a field that is not
      -- static has that key already.
      constructor
      · rintro ⟨hfresh, _⟩ ⟨_, g, hg, hsame, _⟩
        exact hfresh (List.mem_map.2 ⟨g, hg, hsame⟩)
      · intro hdoubles
        refine ⟨fun hmem => hdoubles ⟨by simp [hadded], exists_hidden hinstance hmem⟩, hfields⟩

/-- Narrowing takes from tables, so it makes no doubles. -/
theorem narrowCarrier_sublists (s : Surroundings) (c : ClassFile) :
    (narrowCarrier s c).fields = c.fields
      ∧ (narrowCarrier s c).methods.Sublist c.methods
      ∧ (narrowCarrier s c).interfaces.Sublist c.interfaces := by
  unfold narrowCarrier
  split
  · exact ⟨rfl, .refl _, .refl _⟩
  · split
    · exact ⟨rfl, List.filter_sublist, List.filter_sublist⟩
    · exact ⟨rfl, .refl _, .refl _⟩

end Carriers

/-! ## Woven classes

Of the three tables, only that of fields can have a double, and only in one way. -/

/-- **The tables of a woven class have no doubles** where those of the class had none. The one
exception is a carrier that gets a field for its only instance beside one that is not static.
Methods and interfaces have no exception. -/
theorem nodup_weave {conventions : Conventions} {classpath : ClassIndex} {batch : List ClassFile}
    {i : Nat} {old new : ClassFile} (hold : batch[i]? = some old)
    (hnew : (weave conventions classpath batch).classes[i]? = some new)
    (hfields : (old.fields.map Member.key).Nodup) (hmethods : (old.methods.map Member.key).Nodup)
    (hinterfaces : old.interfaces.Nodup) :
    ((new.fields.map Member.key).Nodup ↔ ¬ DoublesInstance conventions old new)
      ∧ (new.methods.map Member.key).Nodup ∧ new.interfaces.Nodup := by
  obtain ⟨old', prepared, s, hold', hprepared, _, _, hnew⟩ := getElem?_weave hnew
  rw [hold] at hold'
  cases hold'
  have hfirst := prepared_onlyMethods (surroundings conventions classpath batch) old
  have hmethods := prepare_methods_nodup (s := surroundings conventions classpath batch) hmethods
  rw [← hprepared] at hfirst hmethods
  -- Redirecting calls leaves all tables as they are, and narrowing takes from them.
  have hsecond := redirectCalls_onlyMethods (surroundings conventions classpath
    (phaseClasses prepare conventions classpath batch)) prepared
  have hkeys := keys_of_rebodied (redirectCalls_rebodied (surroundings conventions classpath
    (phaseClasses prepare conventions classpath batch)) prepared)
  obtain ⟨hkept, hsubMethods, hsubInterfaces⟩ := narrowCarrier_sublists s
    (redirectCalls (surroundings conventions classpath
      (phaseClasses prepare conventions classpath batch)) prepared).1
  rw [← hnew] at hkept hsubMethods hsubInterfaces
  refine ⟨fields_nodup_iff (s := surroundings conventions classpath batch) ?_ hfields, ?_, ?_⟩
  · rw [hkept, hsecond.fields, hfirst.fields]
  · refine (hsubMethods.map Member.key).nodup ?_
    rwa [hkeys]
  · refine hsubInterfaces.nodup ?_
    rw [hsecond.interfaces, hfirst.interfaces]
    exact prepareCarrier_interfaces_nodup hinterfaces

/-- A lambda carrier that captures nothing and declares the field for its instance without the
static flag. -/
def carrierOfHidden : Bytes :=
  [202, 254, 186, 190, 0, 0, 0, 50, 0, 17, 1, 0, 11, 65, 36, 36, 76, 97, 109, 98, 100, 97, 36, 49,
   7, 0, 1, 1, 0, 16, 106, 97, 118, 97, 47, 108, 97, 110, 103, 47, 79, 98, 106, 101, 99, 116, 7, 0,
   3, 1, 0, 1, 73, 7, 0, 5, 1, 0, 8, 105, 110, 115, 116, 97, 110, 99, 101, 1, 0, 13, 76, 65, 36, 36,
   76, 97, 109, 98, 100, 97, 36, 49, 59, 1, 0, 6, 60, 105, 110, 105, 116, 62, 1, 0, 3, 40, 41, 86,
   12, 0, 9, 0, 10, 10, 0, 4, 0, 11, 1, 0, 4, 67, 111, 100, 101, 10, 0, 2, 0, 11, 1, 0, 14, 108, 97,
   109, 98, 100, 97, 70, 97, 99, 116, 111, 114, 121, 36, 1, 0, 5, 40, 41, 76, 73, 59, 0, 33, 0, 2,
   0, 4, 0, 1, 0, 6, 0, 1, 0, 18, 0, 7, 0, 8, 0, 0, 0, 2, 0, 2, 0, 9, 0, 10, 0, 1, 0, 13, 0, 0, 0,
   17, 0, 1, 0, 1, 0, 0, 0, 5, 42, 183, 0, 12, 177, 0, 0, 0, 0, 0, 8, 0, 15, 0, 16, 0, 1, 0, 13, 0,
   0, 0, 20, 0, 2, 0, 0, 0, 0, 0, 8, 187, 0, 2, 89, 183, 0, 14, 176, 0, 0, 0, 0, 0, 0]

/-- The carrier gets a static field beside the one that it has. Both have one name and one
descriptor. -/
theorem nodup_weave_hidden : ∃ conventions old polyfill,
    polyfillsInR.conventions = .ok conventions
      ∧ ClassFile.parse carrierOfHidden = .ok old ∧ ClassFile.parse carriedPolyfill = .ok polyfill
      ∧ (old.fields.map Member.key).Nodup ∧ (old.methods.map Member.key).Nodup
      ∧ old.interfaces.Nodup
      ∧ ∃ new, (weave conventions (ClassIndex.ofClasses [polyfill]) [old]).classes = [new]
        ∧ ¬ (new.fields.map Member.key).Nodup ∧ (new.methods.map Member.key).Nodup
        ∧ new.interfaces.Nodup := by
  have hwoven : (do
      let conventions ← polyfillsInR.conventions.toOption
      let old ← (ClassFile.parse carrierOfHidden).toOption
      let polyfill ← (ClassFile.parse carriedPolyfill).toOption
      let classes := (weave conventions (ClassIndex.ofClasses [polyfill]) [old]).classes
      let new ← classes.head?
      return decide ((old.fields.map Member.key).Nodup ∧ (old.methods.map Member.key).Nodup
        ∧ old.interfaces.Nodup ∧ classes.length = 1 ∧ new.fields ≠ old.fields
        ∧ ∃ f ∈ old.fields, f.key = instanceKey conventions old.name ∧ f.isStatic = false))
      = some true := by
    decide +kernel
  simp only [toOption_bind_eq_some] at hwoven
  obtain ⟨conventions, hconventions, old, hold, polyfill, hpolyfill, hclasses⟩ := hwoven
  obtain ⟨new, hnew, hchecked⟩ := Option.bind_eq_some_iff.1 hclasses
  obtain ⟨hfields, hmethods, hinterfaces, hlength, hgains, hhidden⟩ :=
    of_decide_eq_true (Option.some.inj hchecked)
  have hwoven := eq_singleton_of_head? hlength hnew
  -- The exception of the theorem is met, so only methods and interfaces stay free of doubles.
  obtain ⟨hdoubled, htables⟩ :=
    nodup_weave (i := 0) rfl (by rw [hwoven]; rfl) hfields hmethods hinterfaces
  exact ⟨conventions, old, polyfill, hconventions, hold, hpolyfill, hfields, hmethods, hinterfaces,
    new, hwoven, fun hnodup => hdoubled.1 hnodup ⟨hgains, hhidden⟩, htables⟩

end Weave
end ClassLoom
