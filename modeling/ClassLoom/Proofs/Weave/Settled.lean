import ClassLoom.Proofs.ClassFile.Indexed
import ClassLoom.Proofs.Weave.LegacyLocals
import ClassLoom.Proofs.Weave.Preparation
import ClassLoom.ClassFile.Format
import ClassLoom.Settings
import ClassLoom.Weave.Weaver

/-!
# Weaving a woven batch

Weaving a batch once more is to find nothing left to do. It does so exactly where every class of
the woven batch is `Settled`: no step of any phase applies to it, on its own and with the scope
of the woven batch. That the phases could undo each other's work is ruled out: what narrowing
takes away is not what preparing adds, and redirecting brings no retyped variable back.

Not every woven batch is settled. A polyfill that extends the class for which it stands in
inherits its methods, so a call that was sent to the polyfill is found to be declared in the
old class, and is sent to the polyfill again.

* `weave_classes_eq_self_iff`: the batches that weaving leaves as they are, among all;
* `weave_weave_classes_eq_iff`: the woven batches among them.
-/

namespace ClassLoom.Weave

open ConstantPool
open Interning (Appends)

/-- Whether no step of weaving changes a class. -/
structure Settled (s : Surroundings) (c : ClassFile) : Prop where
  /-- No lambda carrier is in want of a factory that it could get. -/
  carrier : ∀ polyfill, carrierPolyfill? s c = some polyfill →
    ∀ plan pool, FactoryPlan.of? s.conventions c c.pool ≠ .ok (some plan) pool
  /-- No method has variables that could be retyped. -/
  locals : ∀ polyfill, s.polyfill? s.conventions.localVariableType = some polyfill →
    ∀ m ∈ c.methods, ∀ m' pool, retypeLocals (descriptorOf s.conventions.localVariableType)
      (descriptorOf polyfill.name) m c.pool ≠ .ok (some m') pool
  /-- Only interfaces lack forwarders that could be made. -/
  forwarders : c.isInterface = false → ∀ f ∈ Forwarder.needed s c,
    ∀ m pool, f.method c.pool ≠ .ok m pool
  /-- Redirecting calls gives every method back, or fails on it. -/
  calls : ∀ m ∈ c.methods, ∀ m' diagnostics pool,
    redirectMethod s c.name m c.pool = .ok (m', diagnostics) pool → m' = m ∧ pool = c.pool
  /-- No prepared carrier has kept its old interface. -/
  narrowed : ∀ polyfill, carrierPolyfill? s c = some polyfill →
    ¬ (c.methods.any (·.name = s.conventions.replacementFactory)
      ∧ polyfill.name ∈ c.interfaces)

/-! ## Steps that do nothing

Whether a step does something to a class is not asked of the step but of the parts of it: which
method would be redirected or retyped, which factory or forwarder could be made. A step does nothing
exactly where none of these would change anything. -/

section Steps

variable {s : Surroundings} {c : ClassFile}

/-- A class that attempts on its methods leave as it is has no method that they change. -/
theorem leaves_self_of_attemptAll {attempt : Attempt} (hgrows : attempt.Grows)
    {pool : ConstantPool} {ms : List Member} (h : attemptAll attempt pool ms = (ms, pool)) :
    ∀ m ∈ ms, attempt.Leaves pool m m := by
  have hsize : (attemptAll attempt pool ms).2.size ≤ pool.size :=
    Nat.le_of_eq (congrArg (fun result => size result.2) h)
  have hall := attemptAll_of_size_le hgrows hsize
  rw [h] at hall
  exact List.forall₂_same.1 hall

/-- **When redirecting does nothing**: where every method for which it succeeds is the same
afterwards. A diagnostic may be given all the same. -/
theorem redirectCalls_eq_self_iff : (redirectCalls s c).1 = c
    ↔ ∀ m ∈ c.methods, ∀ m' diagnostics pool,
      redirectMethod s c.name m c.pool = .ok (m', diagnostics) pool → m' = m ∧ pool = c.pool := by
  rw [redirectCalls_fst]
  constructor
  · intro hsame m hm m' diagnostics pool hrun
    -- The class is unchanged if and only if all attempts together change neither methods nor pool.
    have hall : attemptAll (redirecting s c.name) c.pool c.methods = (c.methods, c.pool) :=
      Prod.ext (congrArg ClassFile.methods hsame) (congrArg ClassFile.pool hsame)
    have hattempt := redirecting_eq_some.2 ⟨diagnostics, hrun⟩
    rcases leaves_self_of_attemptAll (redirecting_grows s c.name) hall m hm with
      hleaves | ⟨hnone, _⟩
    · rw [hattempt] at hleaves
      cases hleaves
      exact ⟨rfl, rfl⟩
    · rw [hattempt] at hnone
      cases hnone
  · intro hcalls
    have hall : attemptAll (redirecting s c.name) c.pool c.methods = (c.methods, c.pool) := by
      refine attemptAll_eq_self fun m hm => ?_
      cases hattempt : redirecting s c.name c.pool m with
      | none => rfl
      | some result =>
        obtain ⟨m', pool⟩ := result
        obtain ⟨diagnostics, hrun⟩ := redirecting_eq_some.1 hattempt
        obtain ⟨rfl, rfl⟩ := hcalls m hm m' diagnostics pool hrun
        rfl
    rw [hall]

/-- The descriptors of a class and of its polyfill differ. -/
theorem descriptorOf_ne {name : String} {polyfill : Polyfill}
    (h : s.polyfill? name = some polyfill) : descriptorOf polyfill.name ≠ descriptorOf name := by
  intro hsame
  have hlists := congrArg String.toList hsame
  simp only [descriptorOf, String.toList_append] at hlists
  have hname := List.append_cancel_left (List.append_cancel_right hlists)
  exact Surroundings.polyfill?_name_ne h (String.toList_inj.1 hname)

/-- **When retyping does nothing**: where no method has a variable of the type to retype, as far as
its tables can be read. -/
theorem retypeAllLocals_eq_self_iff (hpool : Reachable c.pool) : (retypeAllLocals s c).1 = c
    ↔ ∀ polyfill, s.polyfill? s.conventions.localVariableType = some polyfill →
      ∀ m ∈ c.methods, ∀ m' pool, retypeLocals (descriptorOf s.conventions.localVariableType)
        (descriptorOf polyfill.name) m c.pool ≠ .ok (some m') pool := by
  cases hpolyfill : s.polyfill? s.conventions.localVariableType with
  | none => simp [retypeAllLocals, hpolyfill]
  | some polyfill =>
    rw [retypeAllLocals_fst hpolyfill]
    constructor
    · rintro hsame _ hfound m hm m' pool hrun
      cases hfound
      have hall : attemptAll (retyping (descriptorOf s.conventions.localVariableType)
          (descriptorOf polyfill.name)) c.pool c.methods = (c.methods, c.pool) :=
        Prod.ext (congrArg ClassFile.methods hsame) (congrArg ClassFile.pool hsame)
      have hattempt := retyping_eq_some.2 hrun
      rcases leaves_self_of_attemptAll (retyping_grows _ _) hall m hm with hleaves | ⟨hnone, _⟩
      · rw [hattempt] at hleaves
        cases hleaves
        -- A method that was retyped has lost the variables that it had before.
        obtain ⟨code, code', hcode, hlegacy, hcode', hretyped⟩ :=
          declaresLocal_of_retypeLocals (descriptorOf_ne hpolyfill) hpool hrun
        rw [hcode] at hcode'
        cases hcode'
        exact hretyped hlegacy
      · rw [hattempt] at hnone
        cases hnone
    · intro hlocals
      have hall : attemptAll (retyping (descriptorOf s.conventions.localVariableType)
          (descriptorOf polyfill.name)) c.pool c.methods = (c.methods, c.pool) := by
        refine attemptAll_eq_self fun m hm => ?_
        cases hattempt : retyping (descriptorOf s.conventions.localVariableType)
            (descriptorOf polyfill.name) c.pool m with
        | none => rfl
        | some result =>
          exact absurd (retyping_eq_some.1 hattempt) (hlocals polyfill rfl m hm _ _)
      rw [hall]

/-- A class is settled exactly where each step alone leaves it as it is. -/
theorem settled_iff (hpool : Reachable c.pool) : Settled s c
    ↔ (prepareCarrier s c).1 = c ∧ (retypeAllLocals s c).1 = c ∧ (addForwarders s c).1 = c
      ∧ (redirectCalls s c).1 = c ∧ narrowCarrier s c = c := by
  rw [prepareCarrier_eq_self_iff, retypeAllLocals_eq_self_iff hpool, addForwarders_eq_self_iff,
    redirectCalls_eq_self_iff, narrowCarrier_eq_self_iff]
  exact ⟨fun h => ⟨h.carrier, h.locals, h.forwarders, h.calls, h.narrowed⟩,
    fun ⟨hcarrier, hlocals, hforwarders, hcalls, hnarrowed⟩ =>
      ⟨hcarrier, hlocals, hforwarders, hcalls, hnarrowed⟩⟩

end Steps

/-! ## Phases that undo nothing

A class that is the same after all steps could in principle have been changed by one and changed
back by another. It is not: additions are never taken back, and a retyped variable does not get its
old type from redirecting. -/

theorem andThen_fst (first second : Step) (s : Surroundings) (c : ClassFile) :
    (first.andThen second s c).1 = (second s (first s c).1).1 := rfl

theorem andThen_snd (first second : Step) (s : Surroundings) (c : ClassFile) :
    (first.andThen second s c).2 = (first s c).2 ++ (second s (first s c).1).2 := rfl

theorem prepare_fst (s : Surroundings) (c : ClassFile) : (prepare s c).1
    = (addForwarders s (retypeAllLocals s (prepareCarrier s c).1).1).1 := by
  rw [prepare, andThen_fst, andThen_fst]

theorem prepare_snd (s : Surroundings) (c : ClassFile) : (prepare s c).2
    = ((prepareCarrier s c).2 ++ (retypeAllLocals s (prepareCarrier s c).1).2)
      ++ (addForwarders s (retypeAllLocals s (prepareCarrier s c).1).1).2 := by
  rw [prepare, andThen_snd, andThen_snd, andThen_fst]

theorem narrow_fst (s : Surroundings) (c : ClassFile) : (narrow s c).1 = narrowCarrier s c := by
  rw [narrow]

theorem prepare_extends (s : Surroundings) (c : ClassFile) : Extends c (prepare s c).1 := by
  rw [prepare_fst]
  exact (prepareCarrier_extends s c).trans
    ((retypeAllLocals_extends s _).trans (addForwarders_extends s _))

/-- Lists that are related there and back, where that leaves every item as it is. -/
theorem eq_of_there_and_back {α : Type} {R S : α → α → Prop} {xs ys : List α}
    (hthere : List.Forall₂ R xs ys) (hback : List.Forall₂ S ys xs)
    (hsame : ∀ x y, R x y → S y x → y = x) : ys = xs := by
  induction hthere with
  | nil => rfl
  | cons hhead _ ih =>
    cases hback with
    | cons hhead' htail' => rw [hsame _ _ hhead hhead', ih htail']

/-- A method that is retyped and then redirected is not what it was before: its tables are kept by
redirecting, and have no variable of the old type any more. -/
theorem eq_of_retyping_redirecting {s : Surroundings} {className legacy polyfill : String}
    {pool : ConstantPool} {m retyped : Member} (hpool : Reachable pool) (hne : polyfill ≠ legacy)
    (hretyped : (retyping legacy polyfill).Leaves pool m retyped)
    (hredirected : (redirecting s className).Leaves pool retyped m) : retyped = m := by
  rcases hretyped with hretyped | ⟨_, hsame⟩
  · obtain ⟨code, code', hcode, hlegacy, hcode', hnone⟩ :=
      declaresLocal_of_retypeLocals hne hpool (retyping_eq_some.1 hretyped)
    rcases hredirected with hredirected | ⟨_, hsame⟩
    · obtain ⟨diagnostics, hrun⟩ := redirecting_eq_some.1 hredirected
      exact absurd (declaresLocal_of_redirectMethod hpool hrun hcode' hcode hlegacy) hnone
    · rw [hsame, hcode'] at hcode
      cases hcode
      exact absurd hlegacy hnone
  · exact hsame

/-- **Redirecting brings no retyped variable back**: a class that is the same after both steps was
not retyped. -/
theorem retypeAllLocals_eq_self {s s' : Surroundings} {c : ClassFile} (hpool : Reachable c.pool)
    (h : (redirectCalls s' (retypeAllLocals s c).1).1 = c) : (retypeAllLocals s c).1 = c := by
  cases hpolyfill : s.polyfill? s.conventions.localVariableType with
  | none => simp only [retypeAllLocals, hpolyfill]
  | some polyfill =>
    -- The pool grows in both steps and is the old one in the end, so neither step adds to it.
    have hback := redirectCalls_extends s' (retypeAllLocals s c).1
    rw [h] at hback
    have hsame := (retypeAllLocals_extends s c).pool.eq_of_trans_self hback.pool
    rw [redirectCalls_fst, (retypeAllLocals_extends s c).name, hsame] at h
    rw [retypeAllLocals_fst hpolyfill] at hsame h ⊢
    have hretyped := attemptAll_of_size_le (retyping_grows _ _)
      (Nat.le_of_eq (congrArg size hsame))
    have hmethods := congrArg ClassFile.methods h
    have hredirected := attemptAll_of_size_le (redirecting_grows s' c.name)
      (Nat.le_of_eq (congrArg (fun c => size c.pool) h))
    simp only at hsame hmethods hredirected
    rw [hmethods] at hredirected
    have hall := eq_of_there_and_back hretyped hredirected fun m retyped =>
      eq_of_retyping_redirecting hpool (descriptorOf_ne hpolyfill)
    rw [hall, hsame]

/-- **The phases undo nothing of each other's work.** A class that is the same after all of them
is left as it is by each of their steps. -/
theorem steps_eq_self {s s' s'' : Surroundings} {c : ClassFile} (hpool : Reachable c.pool)
    (h : narrowCarrier s'' (redirectCalls s' (prepare s c).1).1 = c) :
    (prepareCarrier s c).1 = c ∧ (retypeAllLocals s c).1 = c ∧ (addForwarders s c).1 = c
      ∧ (redirectCalls s' c).1 = c ∧ narrowCarrier s'' c = c := by
  have hprepared := prepare_extends s c
  have hredirected := redirectCalls_extends s' (prepare s c).1
  have hwoven := eq_of_narrowCarrier_eq (hprepared.trans hredirected) h
  rw [hwoven] at h hredirected
  have hcarrier := prepareCarrier_extends s c
  have hlocals := retypeAllLocals_extends s (prepareCarrier s c).1
  have hforwarders := addForwarders_extends s (retypeAllLocals s (prepareCarrier s c).1).1
  rw [prepare_fst] at hwoven hredirected
  -- Each step adds methods or none, and there are as many at the end as at the start.
  have hcarrierSame : (prepareCarrier s c).1 = c := prepareCarrier_eq_self
    (Nat.le_trans hlocals.methods (Nat.le_trans hforwarders.methods hredirected.methods))
  rw [hcarrierSame] at hlocals hforwarders hredirected hwoven
  have hforwardersSame := addForwarders_eq_self
    (Nat.le_trans hredirected.methods hlocals.methods)
  rw [hforwardersSame] at hwoven
  have hlocalsSame := retypeAllLocals_eq_self hpool hwoven
  rw [hlocalsSame] at hforwardersSame hwoven
  exact ⟨hcarrierSame, hlocalsSame, hforwardersSame, hwoven, h⟩

/-! ## Batches

What a class refers to is the batch as it is before a phase. In a batch that is woven to itself all
phases find the same one, so that it is enough to look at single classes. -/

section Batch

variable {conventions : Conventions} {classpath : ClassIndex} {classes : List ClassFile}

/-- What a class of a batch refers to. -/
def surroundings (conventions : Conventions) (classpath : ClassIndex) (classes : List ClassFile) :
    Surroundings :=
  { scope := .ofBatch classes classpath, conventions }

/-- The classes after a step on each of them. -/
def phaseClasses (step : Step) (conventions : Conventions) (classpath : ClassIndex)
    (classes : List ClassFile) : List ClassFile :=
  classes.map fun c => (step (surroundings conventions classpath classes) c).1

/-- The classes after a phase do not depend on what has been reported before. -/
theorem phase_classes (step : Step) (conventions : Conventions) (classpath : ClassIndex)
    (woven : Woven) : (phase step conventions classpath woven).classes
      = phaseClasses step conventions classpath woven.classes := by
  simp only [phase, phaseClasses, List.map_map, surroundings]
  rfl

/-- The classes after the three phases. -/
theorem weave_classes (conventions : Conventions) (classpath : ClassIndex)
    (classes : List ClassFile) : (weave conventions classpath classes).classes
      = phaseClasses narrow conventions classpath (phaseClasses redirectCalls conventions classpath
        (phaseClasses prepare conventions classpath classes)) := by
  simp only [weave, phase_classes]

/-- A phase leaves a batch as it is where its step leaves every class so. -/
theorem phaseClasses_eq_self_iff {step : Step} : phaseClasses step conventions classpath classes
      = classes ↔ ∀ c ∈ classes, (step (surroundings conventions classpath classes) c).1 = c := by
  unfold phaseClasses
  constructor
  · intro h
    have hid := h.trans (List.map_id classes).symm
    exact List.map_inj_left.1 hid
  · intro h
    exact (List.map_inj_left.2 h).trans (List.map_id classes)

/-- What three phases that lead back to a batch do to each of its classes. Every phase goes over the
classes one by one, so together they lead each of them back to itself. -/
theorem steps_of_phaseClasses {first second third : Step}
    (h : phaseClasses third conventions classpath (phaseClasses second conventions classpath
      (phaseClasses first conventions classpath classes)) = classes) :
    ∃ s' s'', s' = surroundings conventions classpath
        (phaseClasses first conventions classpath classes)
      ∧ s'' = surroundings conventions classpath (phaseClasses second conventions classpath
        (phaseClasses first conventions classpath classes))
      ∧ ∀ c ∈ classes, (third s'' (second s'
        (first (surroundings conventions classpath classes) c).1).1).1 = c := by
  have hid := h.trans (List.map_id classes).symm
  simp only [phaseClasses, List.map_map] at hid ⊢
  exact ⟨_, _, rfl, rfl, List.map_inj_left.1 hid⟩

/-- **The batches that weaving leaves as they are** are those whose classes are settled. In one
direction the phases are taken apart; in the other each finds the batch as it was. -/
theorem weave_classes_eq_self_iff (hpools : ∀ c ∈ classes, Reachable c.pool) :
    (weave conventions classpath classes).classes = classes
      ↔ ∀ c ∈ classes, Settled (surroundings conventions classpath classes) c := by
  rw [weave_classes]
  constructor
  · intro h
    obtain ⟨s', s'', rfl, rfl, hback⟩ := steps_of_phaseClasses h
    simp only [narrow_fst] at hback
    have hsteps := fun c hc => steps_eq_self (hpools c hc) (hback c hc)
    -- All classes stay as they are in each phase, so the three phases have the same scope.
    have hprepared : phaseClasses prepare conventions classpath classes = classes := by
      refine phaseClasses_eq_self_iff.2 fun c hc => ?_
      obtain ⟨hcarrier, hlocals, hforwarders, _, _⟩ := hsteps c hc
      rw [prepare_fst, hcarrier, hlocals, hforwarders]
    rw [hprepared] at hsteps
    have hredirected : phaseClasses redirectCalls conventions classpath classes = classes :=
      phaseClasses_eq_self_iff.2 fun c hc => (hsteps c hc).2.2.2.1
    rw [hredirected] at hsteps
    exact fun c hc => (settled_iff (hpools c hc)).2 (hsteps c hc)
  · intro hsettled
    have hsteps := fun c hc => (settled_iff (hpools c hc)).1 (hsettled c hc)
    have hprepared : phaseClasses prepare conventions classpath classes = classes := by
      refine phaseClasses_eq_self_iff.2 fun c hc => ?_
      obtain ⟨hcarrier, hlocals, hforwarders, _, _⟩ := hsteps c hc
      rw [prepare_fst, hcarrier, hlocals, hforwarders]
    have hredirected : phaseClasses redirectCalls conventions classpath classes = classes := by
      refine phaseClasses_eq_self_iff.2 fun c hc => ?_
      obtain ⟨_, _, _, hcalls, _⟩ := hsteps c hc
      exact hcalls
    have hnarrowed : phaseClasses narrow conventions classpath classes = classes := by
      refine phaseClasses_eq_self_iff.2 fun c hc => ?_
      obtain ⟨_, _, _, _, hnarrow⟩ := hsteps c hc
      exact hnarrow
    rw [hprepared, hredirected, hnarrowed]

/-! ## Woven batches

The condition is stated for batches of parsed classes, whose pools are those that there are. -/

/-- Narrowing interns nothing. -/
theorem narrowCarrier_pool (s : Surroundings) (c : ClassFile) :
    (narrowCarrier s c).pool = c.pool := by
  unfold narrowCarrier
  split
  · rfl
  · split <;> rfl

/-- Weaving keeps pools reachable. Every step only interns. -/
theorem reachable_weave (hpools : ∀ c ∈ classes, Reachable c.pool) :
    ∀ c ∈ (weave conventions classpath classes).classes, Reachable c.pool := by
  have hstep {step : Step} {classes : List ClassFile}
      (hextends : ∀ s c, Reachable c.pool → Reachable (step s c).1.pool)
      (hpools : ∀ c ∈ classes, Reachable c.pool) :
      ∀ c ∈ phaseClasses step conventions classpath classes, Reachable c.pool := by
    intro c hc
    obtain ⟨old, hold, rfl⟩ := List.mem_map.1 hc
    exact hextends _ old (hpools old hold)
  rw [weave_classes]
  refine hstep (fun s c hc => ?_) (hstep (fun s c => (redirectCalls_extends s c).pool.reachable)
    (hstep (fun s c => (prepare_extends s c).pool.reachable) hpools))
  rw [narrow_fst, narrowCarrier_pool]
  exact hc

/-- **When weaving once more changes nothing.** A woven batch of parsed classes is woven to
itself exactly where all its classes are settled. -/
theorem weave_weave_classes_eq_iff (conventions : Conventions) (classpath : ClassIndex)
    (batch : List ClassFile) (hbatch : ∀ c ∈ batch, ∃ bs, ClassFile.parse bs = .ok c) :
    let once := (weave conventions classpath batch).classes
    (weave conventions classpath once).classes = once
      ↔ ∀ c ∈ once, Settled (surroundings conventions classpath once) c := by
  intro once
  have hpools : ∀ c ∈ batch, Reachable c.pool := by
    intro c hc
    obtain ⟨bs, hparse⟩ := hbatch c hc
    exact reachable_of_parse hparse
  exact weave_classes_eq_self_iff (reachable_weave hpools)

end Batch

/-- A class `A` whose method `m` calls `f` on an `X`. -/
def callOfInherited : Bytes :=
  [202, 254, 186, 190, 0, 0, 0, 50, 0, 14, 1, 0, 1, 65, 7, 0, 1, 1, 0, 16, 106, 97, 118, 97,
    47, 108, 97, 110, 103, 47, 79, 98, 106, 101, 99, 116, 7, 0, 3, 1, 0, 1, 109, 1, 0, 6, 40,
    76, 88, 59, 41, 86, 1, 0, 1, 88, 7, 0, 7, 1, 0, 1, 102, 1, 0, 3, 40, 41, 86, 12, 0, 9, 0,
    10, 10, 0, 8, 0, 11, 1, 0, 4, 67, 111, 100, 101, 0, 33, 0, 2, 0, 4, 0, 0, 0, 0, 0, 1, 0, 9,
    0, 5, 0, 6, 0, 1, 0, 13, 0, 0, 0, 17, 0, 1, 0, 1, 0, 0, 0, 5, 42, 182, 0, 12, 177, 0, 0, 0,
    0, 0, 0]

/-- The class `X`, which has the method `f`. -/
def inheritedFrom : Bytes :=
  [202, 254, 186, 190, 0, 0, 0, 50, 0, 8, 1, 0, 1, 88, 7, 0, 1, 1, 0, 16, 106, 97, 118, 97, 47,
    108, 97, 110, 103, 47, 79, 98, 106, 101, 99, 116, 7, 0, 3, 1, 0, 1, 102, 1, 0, 3, 40, 41,
    86, 1, 0, 4, 67, 111, 100, 101, 0, 33, 0, 2, 0, 4, 0, 0, 0, 0, 0, 1, 0, 1, 0, 5, 0, 6, 0,
    1, 0, 7, 0, 0, 0, 13, 0, 0, 0, 1, 0, 0, 0, 1, 177, 0, 0, 0, 0, 0, 0]

/-- The polyfill `r/_X` of `X`, which extends it and has no methods. -/
def inheritingPolyfill : Bytes :=
  [202, 254, 186, 190, 0, 0, 0, 50, 0, 5, 1, 0, 4, 114, 47, 95, 88, 7, 0, 1, 1, 0, 1, 88, 7,
    0, 3, 0, 33, 0, 2, 0, 4, 0, 0, 0, 0, 0, 0, 0, 0]

/-- Settings under which polyfills lie in the package `r`. -/
def polyfillsInR : Settings := { polyfillNamespace := "r" }

/-- A call of a method that the polyfill inherits from the class for which it stands in. Weaving
sends it to the polyfill and, once more, from the polyfill to itself. -/
theorem weave_weave_inherited : ∃ conventions caller old polyfill,
    polyfillsInR.conventions = .ok conventions
      ∧ ClassFile.parse callOfInherited = .ok caller ∧ ClassFile.parse inheritedFrom = .ok old
      ∧ ClassFile.parse inheritingPolyfill = .ok polyfill
      ∧ let classpath := ClassIndex.ofClasses [old, polyfill]
        let once := (weave conventions classpath [caller]).classes
        (weave conventions classpath once).classes.map ClassFile.bytes ≠ once.map ClassFile.bytes
          ∧ ¬ ∀ c ∈ once, Settled (surroundings conventions classpath once) c := by
  have hwoven : (do
      let conventions ← polyfillsInR.conventions.toOption
      let caller ← (ClassFile.parse callOfInherited).toOption
      let old ← (ClassFile.parse inheritedFrom).toOption
      let polyfill ← (ClassFile.parse inheritingPolyfill).toOption
      let classpath := ClassIndex.ofClasses [old, polyfill]
      let once := (weave conventions classpath [caller]).classes
      let twice := (weave conventions classpath once).classes
      return decide (twice.map (·.bytes.toOption) ≠ once.map (·.bytes.toOption))) = some true := by
    decide +kernel
  simp only [toOption_bind_eq_some] at hwoven
  obtain ⟨conventions, hconventions, caller, hcaller, old, hold, polyfill, hpolyfill, hdiffer⟩ :=
    hwoven
  refine ⟨conventions, caller, old, polyfill, hconventions, hcaller, hold, hpolyfill, ?_⟩
  intro classpath once
  have hbytes : (weave conventions classpath once).classes.map ClassFile.bytes
      ≠ once.map ClassFile.bytes := by
    intro hsame
    have hoptions := congrArg (List.map Except.toOption) hsame
    rw [List.map_map, List.map_map] at hoptions
    exact of_decide_eq_true (Option.some.inj hdiffer) hoptions
  refine ⟨hbytes, fun hsettled => ?_⟩
  have hbatch : ∀ c ∈ [caller], ∃ bs, ClassFile.parse bs = .ok c := by
    intro c hc
    rw [List.mem_singleton.1 hc]
    exact ⟨callOfInherited, hcaller⟩
  -- Settled classes would be given back as they are, bytes and all.
  have hsame := (weave_weave_classes_eq_iff conventions classpath [caller] hbatch).2 hsettled
  exact hbytes (congrArg (List.map ClassFile.bytes) hsame)

end ClassLoom.Weave
