import ClassLoom.Proofs.Weave.Attempts
import ClassLoom.Weave.LambdaCarrier

/-!
# Classes that get more

Preparing a class and redirecting its calls add to it: interfaces behind those it has, methods,
and slots of its pool (`Extends`). Only narrowing takes something away, and what it leaves is no
class to be narrowed.

* `prepareCarrier_extends`, `retypeAllLocals_extends`, `addForwarders_extends`,
  `redirectCalls_extends`: the four steps that add;
* `eq_of_narrowCarrier_eq`: narrowing undoes none of them.
-/

namespace ClassLoom

open ConstantPool
open Interning (Appends)

/-! ## Polyfills of polyfills

A class that is a polyfill has none, and it is told by its name: names of polyfills lie in the
configured package. This is what keeps rewriting from going on without end. -/

namespace Conventions

/-- The names of polyfills lie in their namespace: whatever the class, its name has the package in
front. -/
theorem isPolyfill_polyfillName (conventions : Conventions) (name : String) :
    conventions.isPolyfill (conventions.polyfillName name) = true := by
  unfold isPolyfill polyfillName
  rw [List.isPrefixOf_iff_prefix]
  split
  · next package simple _ =>
    refine ⟨package.toList ++ "/".toList ++ conventions.replacementPrefix.toList
      ++ simple.toList, ?_⟩
    simp only [String.toList_append, List.append_assoc]
    rfl
  · refine ⟨conventions.replacementPrefix.toList ++ name.toList, ?_⟩
    simp only [String.toList_append, List.append_assoc]
    rfl

/-- The companion of a polyfill lies there, too, since its name only has a suffix more. -/
theorem isPolyfill_companionName {conventions : Conventions} {name : String}
    (h : conventions.isPolyfill name = true) :
    conventions.isPolyfill (conventions.companionName name) = true := by
  unfold isPolyfill companionName at *
  rw [List.isPrefixOf_iff_prefix] at h ⊢
  rw [String.toList_append]
  exact h.trans (List.prefix_append _ _)

/-- A polyfill has a name, with one slash in it at least. -/
theorem polyfillName_ne_empty (conventions : Conventions) (name : String) :
    conventions.polyfillName name ≠ "" := by
  intro hempty
  have hpolyfill := conventions.isPolyfill_polyfillName name
  rw [hempty, isPolyfill, List.isPrefixOf_iff_prefix] at hpolyfill
  have hnil := List.prefix_nil.1 hpolyfill
  simp at hnil

end Conventions

namespace Surroundings

variable {s : Surroundings} {name : String} {polyfill : Polyfill}

/-- The polyfill of a class has the name that the conventions make of the class's. -/
theorem name_of_polyfill? (h : s.polyfill? name = some polyfill) :
    polyfill.name = s.conventions.polyfillName name := by
  unfold polyfill? at h
  split at h
  · cases h
  · obtain ⟨stub, _, rfl⟩ := Option.map_eq_some_iff.1 h
    rfl

/-- A class that has a polyfill is none itself. -/
theorem isPolyfill_of_polyfill? (h : s.polyfill? name = some polyfill) :
    s.conventions.isPolyfill name = false := by
  unfold polyfill? at h
  split at h
  · cases h
  · next hnone =>
    simp only [Bool.or_eq_true, not_or, Bool.not_eq_true] at hnone
    exact hnone.2

/-- And what is found for it is one, so it has no polyfill in turn. -/
theorem isPolyfill_name (h : s.polyfill? name = some polyfill) :
    s.conventions.isPolyfill polyfill.name = true := by
  rw [name_of_polyfill? h]
  exact s.conventions.isPolyfill_polyfillName name

/-- The class that stands in has another name than the one that it stands in for. -/
theorem polyfill?_name_ne (h : s.polyfill? name = some polyfill) : polyfill.name ≠ name := by
  intro hsame
  have hpolyfill := isPolyfill_name h
  rw [hsame, isPolyfill_of_polyfill? h] at hpolyfill
  cases hpolyfill

end Surroundings

namespace Weave

/-! ## What steps intern

Everything that preparing makes is made of constants, and those are interned. A computation that
interns only appends to the pool (`Appends`), which is put together from its parts. -/

namespace FactoryPlan

theorem appends_makeInstance (carrier field descriptor : String) :
    Appends (makeInstance carrier field descriptor) :=
  (appends_internClass _).bind fun _ => (appends_internMember _).bind fun _ =>
    (appends_internMember _).bind fun _ => .pure _

theorem appends_extendInitializer (m : Member) (instructions : List Instruction) :
    Appends (extendInitializer m instructions) := by
  refine Appends.get.bind fun pool => (Appends.lift (m.code? pool)).bind fun found => ?_
  cases found with
  | none => exact .throw _
  | some code => exact (Appends.lift _).bind fun _ => m.appends_setCode _

theorem appends_newInitializer (instructions : List Instruction) :
    Appends (newInitializer instructions) :=
  (Appends.lift _).bind fun _ => Member.appends_setCode _ _

theorem appends_initializer (c : ClassFile) (field descriptor : String) :
    Appends (initializer c field descriptor) := by
  refine (appends_makeInstance _ _ _).bind fun instructions => ?_
  simp only
  split
  · exact (appends_extendInitializer _ _).bind fun _ => .pure _
  · exact (appends_newInitializer _).bind fun _ => .pure _

theorem appends_sharedBody (carrier field descriptor : String) :
    Appends (sharedBody carrier field descriptor) :=
  (appends_internMember _).bind fun _ => (Appends.lift _).bind fun _ => .pure _

/-- The body that makes a new instance of a carrier out of what it captures. -/
theorem appends_freshBody (carrier : String) (params : List FieldType) (descriptor : String) :
    Appends (freshBody carrier params descriptor) :=
  (appends_internClass _).bind fun _ => (appends_internMember _).bind fun _ =>
    (Appends.lift _).bind fun _ => .pure _

theorem appends_shared? (conventions : Conventions) (c : ClassFile) (factory : Member)
    (descriptor : String) : Appends (shared? conventions c factory descriptor) := by
  unfold shared?
  simp only
  split
  · exact (appends_sharedBody _ _ _).bind fun _ => (factory.appends_setCode _).bind fun _ => .pure _
  · split
    · exact .pure _
    · exact (appends_initializer _ _ _).bind fun _ => (appends_sharedBody _ _ _).bind fun _ =>
        (factory.appends_setCode _).bind fun _ => .pure _

theorem appends_fresh? (c : ClassFile) (factory : Member) (params : List FieldType) :
    Appends (fresh? c factory params) := by
  unfold fresh?
  simp only
  split
  · exact .pure _
  · exact (appends_freshBody _ _ _).bind fun _ => (factory.appends_setCode _).bind fun _ => .pure _

/-- **Planning a factory appends to the pool**, whichever of the two it comes to, and also where it
comes to none. -/
theorem appends_of? (conventions : Conventions) (c : ClassFile) : Appends (of? conventions c) := by
  unfold of?
  split
  · exact .pure _
  · split
    · exact .pure _
    · refine (Appends.lift _).bind fun descriptor => ?_
      simp only
      split
      · exact appends_shared? _ _ _ _
      · exact appends_fresh? _ _ _

/-- What a plan says adds a method, and the initializer where there was none. -/
theorem length_methods_commit (plan : FactoryPlan) (c : ClassFile) :
    c.methods.length < (plan.commit c).methods.length := by
  unfold commit
  simp only [List.length_append, List.length_singleton]
  split
  · rw [List.length_set]
    omega
  · rw [List.length_append]
    omega
  · omega

end FactoryPlan

theorem Forwarder.appends_method (f : Forwarder) : Appends f.method :=
  (appends_internMember _).bind fun _ => (Appends.lift _).bind fun _ => Member.appends_setCode _ _

/-! ## Steps that add

Preparing takes nothing away. A class after it `Extends` the class before: interfaces and methods
are those of before with more behind them. So a step that gives a class of the same size has done
nothing, which is the way to tell from the outside whether it did anything. -/

/-- Whether a class has come from another one of its name by additions. -/
structure Extends (old new : ClassFile) : Prop where
  name : new.name = old.name
  pool : GrowsTo old.pool new.pool
  interfaces : old.interfaces <+: new.interfaces
  methods : old.methods.length ≤ new.methods.length

namespace Extends

theorem refl (c : ClassFile) : Extends c c :=
  ⟨rfl, GrowsTo.refl _, List.prefix_refl _, Nat.le_refl _⟩

theorem trans {a b c : ClassFile} (hab : Extends a b) (hbc : Extends b c) : Extends a c :=
  ⟨hbc.name.trans hab.name, hab.pool.trans hbc.pool, hab.interfaces.trans hbc.interfaces,
    Nat.le_trans hab.methods hbc.methods⟩

end Extends

section Prepare

variable {s : Surroundings} {c : ClassFile}

/-- What preparing a carrier does, if anything: with a polyfill and a plan the class gets the
factory of the plan and the polyfill among its interfaces, in the pool of the plan. In all other
cases it is the class that it was. -/
theorem prepareCarrier_cases (s : Surroundings) (c : ClassFile) :
    ((prepareCarrier s c).1 = c ∧ ∀ polyfill, carrierPolyfill? s c = some polyfill →
        ∀ plan pool, FactoryPlan.of? s.conventions c c.pool ≠ .ok (some plan) pool)
      ∨ ∃ polyfill plan pool, carrierPolyfill? s c = some polyfill
        ∧ FactoryPlan.of? s.conventions c c.pool = .ok (some plan) pool
        ∧ (prepareCarrier s c).1 = addInterface polyfill.name (plan.commit { c with pool }) := by
  unfold prepareCarrier
  cases hcarrier : carrierPolyfill? s c with
  | none => exact .inl ⟨rfl, fun _ hsome => by cases hsome⟩
  | some polyfill =>
    simp only [Interning.on]
    cases hplan : FactoryPlan.of? s.conventions c c.pool with
    | error e pool => exact .inl ⟨rfl, fun _ _ _ _ hok => by cases hok⟩
    | ok found pool =>
      cases found with
      | none => exact .inl ⟨rfl, fun _ _ _ _ hok => by cases hok⟩
      | some plan => exact .inr ⟨polyfill, plan, pool, rfl, rfl, rfl⟩

/-- An interface comes behind the others, if it is not among them. -/
theorem addInterface_extends (name : String) (c : ClassFile) : Extends c (addInterface name c) := by
  unfold addInterface
  split
  · exact .refl c
  · exact ⟨rfl, GrowsTo.refl _, List.prefix_append .., Nat.le_refl _⟩

theorem length_methods_addInterface (name : String) (c : ClassFile) :
    (addInterface name c).methods.length = c.methods.length := by
  unfold addInterface
  split <;> rfl

/-- Preparing a carrier extends it. -/
theorem prepareCarrier_extends (s : Surroundings) (c : ClassFile) :
    Extends c (prepareCarrier s c).1 := by
  rcases prepareCarrier_cases s c with ⟨hsame, _⟩ | ⟨polyfill, plan, pool, _, hplan, hnew⟩
  · rw [hsame]
    exact .refl c
  · rw [hnew]
    have hcommit : Extends c (plan.commit { c with pool }) :=
      ⟨rfl, (FactoryPlan.appends_of? s.conventions c).growsTo hplan, List.prefix_refl _,
        Nat.le_of_lt (plan.length_methods_commit { c with pool })⟩
    exact hcommit.trans (addInterface_extends polyfill.name _)

/-- Preparing a carrier that gets no method leaves it as it is. The interface comes together with
the factory only. -/
theorem prepareCarrier_eq_self (h : (prepareCarrier s c).1.methods.length ≤ c.methods.length) :
    (prepareCarrier s c).1 = c := by
  rcases prepareCarrier_cases s c with ⟨hsame, _⟩ | ⟨polyfill, plan, pool, _, _, hnew⟩
  · exact hsame
  · rw [hnew, length_methods_addInterface] at h
    have hmore : c.methods.length < (plan.commit { c with pool }).methods.length :=
      plan.length_methods_commit { c with pool }
    omega

/-- **When preparing a carrier does nothing**: where its interface has no polyfill, or no factory
can be planned. -/
theorem prepareCarrier_eq_self_iff : (prepareCarrier s c).1 = c
    ↔ ∀ polyfill, carrierPolyfill? s c = some polyfill →
      ∀ plan pool, FactoryPlan.of? s.conventions c c.pool ≠ .ok (some plan) pool := by
  rcases prepareCarrier_cases s c with ⟨hsame, hnone⟩ | ⟨polyfill, plan, pool, hcarrier, hplan, hnew⟩
  · exact ⟨fun _ => hnone, fun _ => hsame⟩
  · constructor
    · intro hsame
      have hmore : c.methods.length < (plan.commit { c with pool }).methods.length :=
        plan.length_methods_commit { c with pool }
      rw [← length_methods_addInterface polyfill.name (plan.commit _), ← hnew, hsame] at hmore
      omega
    · intro hnone
      exact absurd hplan (hnone polyfill hcarrier plan pool)

/-- Retyping local variables rewrites methods in their places, with the pool appended to. -/
theorem retypeAllLocals_extends (s : Surroundings) (c : ClassFile) :
    Extends c (retypeAllLocals s c).1 := by
  cases hpolyfill : s.polyfill? s.conventions.localVariableType with
  | none =>
    simp only [retypeAllLocals, hpolyfill]
    exact .refl c
  | some polyfill =>
    rw [retypeAllLocals_fst hpolyfill]
    refine ⟨rfl, (retyping_grows _ _).attemptAll _ _, List.prefix_refl _, ?_⟩
    exact Nat.le_of_eq length_attemptAll.symm

theorem redirectCalls_extends (s : Surroundings) (c : ClassFile) :
    Extends c (redirectCalls s c).1 := by
  rw [redirectCalls_fst]
  refine ⟨rfl, (redirecting_grows _ _).attemptAll _ _, List.prefix_refl _, ?_⟩
  exact Nat.le_of_eq length_attemptAll.symm

end Prepare

/-! ## Forwarders

Forwarders are added one by one, and each that succeeds makes the class longer by a method. One that
fails leaves class and pool as they were, so it does not matter to those that come behind it. -/

section Forwarders

variable {c : ClassFile} {diagnostics : List Diagnostic}

/-- What adding a forwarder does, if anything: one more method, or one more diagnostic. -/
theorem addTo_cases (c : ClassFile) (diagnostics : List Diagnostic) (f : Forwarder) :
    ((Forwarder.addTo (c, diagnostics) f).1 = c ∧ ∀ m pool, f.method c.pool ≠ .ok m pool)
      ∨ ∃ m pool, f.method c.pool = .ok m pool
        ∧ (Forwarder.addTo (c, diagnostics) f).1 = { c with methods := c.methods ++ [m], pool } := by
  simp only [Forwarder.addTo, Interning.on]
  cases hmethod : f.method c.pool with
  | error e pool => exact .inl ⟨rfl, fun _ _ hok => by cases hok⟩
  | ok m pool => exact .inr ⟨m, pool, rfl, rfl⟩

/-- Adding a forwarder extends the class. -/
theorem addTo_extends (c : ClassFile) (diagnostics : List Diagnostic) (f : Forwarder) :
    Extends c (Forwarder.addTo (c, diagnostics) f).1 := by
  rcases addTo_cases c diagnostics f with ⟨hsame, _⟩ | ⟨m, pool, hmethod, hnew⟩
  · rw [hsame]
    exact .refl c
  · rw [hnew]
    refine ⟨rfl, f.appends_method.growsTo hmethod, List.prefix_refl _, ?_⟩
    simp only [List.length_append, List.length_singleton]
    omega

theorem foldl_addTo_extends (fs : List Forwarder) (c : ClassFile) (diagnostics : List Diagnostic) :
    Extends c (fs.foldl Forwarder.addTo (c, diagnostics)).1 := by
  induction fs generalizing c diagnostics with
  | nil => exact .refl c
  | cons f fs ih => exact (addTo_extends c diagnostics f).trans (ih _ _)

/-- **Forwarders that add no method cannot be made**, and change nothing. The first that could be
made would make the class longer, and nothing behind it makes the class shorter again. -/
theorem foldl_addTo_of_length_le {fs : List Forwarder}
    (h : (fs.foldl Forwarder.addTo (c, diagnostics)).1.methods.length ≤ c.methods.length) :
    (fs.foldl Forwarder.addTo (c, diagnostics)).1 = c
      ∧ ∀ f ∈ fs, ∀ m pool, f.method c.pool ≠ .ok m pool := by
  induction fs generalizing diagnostics with
  | nil => exact ⟨rfl, fun f hf => absurd hf List.not_mem_nil⟩
  | cons f fs ih =>
    rw [List.foldl_cons] at h ⊢
    rcases hnext : Forwarder.addTo (c, diagnostics) f with ⟨c', found⟩
    have hcases := addTo_cases c diagnostics f
    rw [hnext] at hcases h
    rcases hcases with ⟨rfl, hnone⟩ | ⟨m, pool, _, hnew⟩
    · obtain ⟨hsame, hrest⟩ := ih h
      exact ⟨hsame, List.forall_mem_cons.2 ⟨hnone, hrest⟩⟩
    · have hle := (foldl_addTo_extends fs c' found).methods
      have hnew : c' = { c with methods := c.methods ++ [m], pool } := hnew
      have hlength : c'.methods.length = c.methods.length + 1 := by
        rw [hnew, List.length_append, List.length_singleton]
      omega

/-- Conversely, forwarders that cannot be made leave the class alone. Each finds the pool that the
first one found. -/
theorem foldl_addTo_eq_self {fs : List Forwarder}
    (h : ∀ f ∈ fs, ∀ m pool, f.method c.pool ≠ .ok m pool) :
    (fs.foldl Forwarder.addTo (c, diagnostics)).1 = c := by
  induction fs generalizing diagnostics with
  | nil => rfl
  | cons f fs ih =>
    obtain ⟨hhead, htail⟩ := List.forall_mem_cons.1 h
    rw [List.foldl_cons]
    rcases hnext : Forwarder.addTo (c, diagnostics) f with ⟨c', found⟩
    have hcases := addTo_cases c diagnostics f
    rw [hnext] at hcases
    rcases hcases with ⟨rfl, _⟩ | ⟨m, pool, hmethod, _⟩
    · exact ih htail
    · exact absurd hmethod (hhead m pool)

variable {s : Surroundings}

/-- Adding the forwarders of a class extends it. -/
theorem addForwarders_extends (s : Surroundings) (c : ClassFile) :
    Extends c (addForwarders s c).1 := by
  unfold addForwarders
  split
  · exact .refl c
  · exact foldl_addTo_extends _ c []

/-- Adding forwarders to a class that gets no method leaves it as it is. -/
theorem addForwarders_eq_self (h : (addForwarders s c).1.methods.length ≤ c.methods.length) :
    (addForwarders s c).1 = c := by
  unfold addForwarders at h ⊢
  split
  · rfl
  · next hclass =>
    rw [if_neg hclass] at h
    exact (foldl_addTo_of_length_le h).1

/-- **When adding forwarders does nothing**: to an interface, and to a class none of whose
forwarders can be made. -/
theorem addForwarders_eq_self_iff : (addForwarders s c).1 = c
    ↔ c.isInterface = false → ∀ f ∈ Forwarder.needed s c, ∀ m pool, f.method c.pool ≠ .ok m pool := by
  unfold addForwarders
  cases hclass : c.isInterface with
  | true => simp
  | false =>
    rw [if_neg (by decide)]
    constructor
    · intro hsame _
      have hlength : ((Forwarder.needed s c).foldl Forwarder.addTo (c, [])).1.methods.length
          ≤ c.methods.length :=
        Nat.le_of_eq (congrArg (fun c => c.methods.length) hsame)
      exact (foldl_addTo_of_length_le hlength).2
    · intro hnone
      exact foldl_addTo_eq_self (hnone rfl)

end Forwarders

/-! ## Narrowing

Narrowing is the only step that takes something away. It could seem to undo what preparing has done;
but it keeps the polyfill among the interfaces and drops the other one, so it never gives the class
of before back. -/

section Narrow

variable {s : Surroundings} {c : ClassFile}

/-- What narrowing does, if anything: of the interfaces the polyfill is left, of the methods all but
the old factories. It does so to carriers that have been prepared. -/
theorem narrowCarrier_cases (s : Surroundings) (c : ClassFile) :
    (narrowCarrier s c = c ∧ ∀ polyfill, carrierPolyfill? s c = some polyfill →
        ¬ (c.methods.any (·.name = s.conventions.replacementFactory)
          ∧ polyfill.name ∈ c.interfaces))
      ∨ ∃ polyfill, carrierPolyfill? s c = some polyfill ∧ polyfill.name ∈ c.interfaces
        ∧ c.methods.any (·.name = s.conventions.replacementFactory)
        ∧ (narrowCarrier s c).interfaces = c.interfaces.filter (· = polyfill.name) := by
  unfold narrowCarrier
  cases hcarrier : carrierPolyfill? s c with
  | none => exact .inl ⟨rfl, fun _ hsome => by cases hsome⟩
  | some polyfill =>
    simp only
    split
    · next hboth =>
      rw [Bool.and_eq_true, List.contains_iff_mem] at hboth
      exact .inr ⟨polyfill, rfl, hboth.2, hboth.1, rfl⟩
    · next hboth =>
      rw [Bool.and_eq_true, List.contains_iff_mem] at hboth
      refine .inl ⟨rfl, fun polyfill' hpolyfill' => ?_⟩
      cases hpolyfill'
      exact hboth

/-- The interface of a carrier is no polyfill, since it has one. Polyfills have no polyfills
themselves. -/
theorem head_of_carrierPolyfill? {polyfill : Polyfill}
    (h : carrierPolyfill? s c = some polyfill) :
    ∃ name, c.interfaces.head? = some name ∧ s.polyfill? name = some polyfill := by
  unfold carrierPolyfill? at h
  split at h
  · cases h
  · obtain ⟨name, hname, h⟩ := Option.bind_eq_some_iff.1 h
    obtain ⟨found, hfound, h⟩ := Option.bind_eq_some_iff.1 h
    split at h
    · cases h
      exact ⟨name, hname, hfound⟩
    · cases h

/-- A narrowed carrier is not what it was before additions. Its first interface is a polyfill then,
and what comes first before additions comes first after them, where it is what the polyfill is
for. -/
theorem narrowCarrier_ne {new : ClassFile} {polyfill : Polyfill} (hextends : Extends c new)
    (hcarrier : carrierPolyfill? s new = some polyfill) (hmem : polyfill.name ∈ new.interfaces)
    (hnarrowed : (narrowCarrier s new).interfaces
      = new.interfaces.filter (· = polyfill.name)) : narrowCarrier s new ≠ c := by
  intro h
  obtain ⟨name, hhead, hpolyfill⟩ := head_of_carrierPolyfill? hcarrier
  rw [h] at hnarrowed
  obtain ⟨more, hmore⟩ := hextends.interfaces
  -- The polyfill was kept, so there is an interface, and the first one has been kept as well.
  cases hinterfaces : c.interfaces with
  | nil =>
    have hkept : polyfill.name ∈ c.interfaces := by
      rw [hnarrowed, List.mem_filter]
      exact ⟨hmem, by simp⟩
    rw [hinterfaces] at hkept
    cases hkept
  | cons first rest =>
    have hfirst : first ∈ new.interfaces.filter (· = polyfill.name) := by
      rw [← hnarrowed, hinterfaces]
      exact List.mem_cons_self ..
    have hfirstName : first = polyfill.name := by
      simpa using (List.mem_filter.1 hfirst).2
    rw [← hmore, hinterfaces, List.cons_append, List.head?_cons] at hhead
    cases hhead
    exact Surroundings.polyfill?_name_ne hpolyfill hfirstName.symm

/-- **Narrowing undoes no additions**: where it gives the class that was there before them, it has
done nothing. -/
theorem eq_of_narrowCarrier_eq {new : ClassFile} (hextends : Extends c new)
    (h : narrowCarrier s new = c) : new = c := by
  rcases narrowCarrier_cases s new with ⟨hsame, _⟩ | ⟨polyfill, hcarrier, hmem, _, hnarrowed⟩
  · rw [← hsame, h]
  · exact absurd h (narrowCarrier_ne hextends hcarrier hmem hnarrowed)

/-- **When narrowing does nothing**: where there is no new factory, or the polyfill is not among the
interfaces. -/
theorem narrowCarrier_eq_self_iff : narrowCarrier s c = c
    ↔ ∀ polyfill, carrierPolyfill? s c = some polyfill →
      ¬ (c.methods.any (·.name = s.conventions.replacementFactory)
        ∧ polyfill.name ∈ c.interfaces) := by
  rcases narrowCarrier_cases s c with
    ⟨hsame, hnone⟩ | ⟨polyfill, hcarrier, hmem, hfactory, hnarrowed⟩
  · exact ⟨fun _ => hnone, fun _ => hsame⟩
  · constructor
    · intro hsame
      exact absurd hsame (narrowCarrier_ne (.refl c) hcarrier hmem hnarrowed)
    · intro hnone
      exact absurd ⟨hfactory, hmem⟩ (hnone polyfill hcarrier)

end Narrow
end Weave
end ClassLoom
