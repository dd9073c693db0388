import ClassLoom.Proofs.Code.Rebodied
import ClassLoom.Weave.LambdaCarrier

/-!
# Plans for lambda carriers

Whether there is a plan for a carrier can be told from what it declares (`Plannable`); only room
in the pool and bodies that cannot be read stand in the way then. What a plan gives the carrier is
a factory that takes what the old one takes, and, where it captures nothing and declares no static
instance, a field with an initializer.

* `plans_of_of?`: what a lambda carrier gets;
* `Plannable.of?_ne_none`: carriers for which there is a plan or a report.
-/

namespace ClassLoom.Weave

open Member (Rebodied)

/-! ## What a carrier must have

Whether there is a plan is a matter of what the class declares. The conditions are told here on
their own, apart from the order in which they are asked. -/

/-- Whether a class has a constructor with the given parameters. -/
def HasConstructor (c : ClassFile) (params : List FieldType) : Prop :=
  (Member.find? Typing.constructorName ("(" ++ FieldType.textOfAll params ++ ")V") c.methods).isSome

/-- The name and the type of the field that holds the only instance of a carrier. -/
def instanceKey (conventions : Conventions) (className : String) : String × String :=
  (conventions.lambdaInstanceField, "L" ++ className ++ ";")

/-- Whether a carrier declares a static field for its only instance. -/
def HasInstance (conventions : Conventions) (c : ClassFile) : Prop :=
  ∃ f, Member.find? (instanceKey conventions c.name).1 (instanceKey conventions c.name).2 c.fields
    = some f ∧ f.isStatic

/-- Whether a class is in want of a new factory: it has none, and the first static one under the
old name takes the given parameters. -/
structure WantsFactory (conventions : Conventions) (c : ClassFile) (params : List FieldType) :
    Prop where
  fresh : ∀ m ∈ c.methods, m.name ≠ conventions.replacementFactory
  factory : ∃ old d,
    c.methods.find? (fun m => m.name = conventions.lambdaFactory && m.isStatic) = some old
      ∧ MethodDescriptor.parse old.descriptor = .ok d ∧ d.params = params

/-- Whether a class has what a factory with the given parameters needs: a constructor that takes
the same, or its only instance in a static field. -/
def HasSource (conventions : Conventions) (c : ClassFile) (params : List FieldType) : Prop :=
  HasConstructor c params ∨ params = [] ∧ HasInstance conventions c

/-- Whether a class is in want of a new factory and has what that needs. -/
structure Plannable (conventions : Conventions) (c : ClassFile) (params : List FieldType) : Prop
    extends WantsFactory conventions c params where
  source : HasSource conventions c params

/-! ## What a carrier gets

A plan has a factory, and maybe a field and an initializer. What is said of them is what other
classes can see, and that the bodies are those of the source. -/

/-- The new factory of a carrier, with no body yet. -/
def newFactory (conventions : Conventions) (className : String) (params : List FieldType) :
    Member :=
  { access := Access.publicFlag ||| Access.staticFlag
    name := conventions.replacementFactory
    descriptor := "(" ++ FieldType.textOfAll params ++ ")" ++ ("L" ++ className ++ ";") }

/-- The descriptor of a new factory, which returns the carrier. -/
theorem text_newFactory (params : List FieldType) (className : String) :
    "(" ++ FieldType.textOfAll params ++ ")" ++ ("L" ++ className ++ ";")
      = MethodDescriptor.text { params, result := .value (.object className) } := by
  apply String.toList_inj.1
  simp [FieldType.textOfAll, MethodDescriptor.text, MethodDescriptor.chars, ReturnType.chars,
    FieldType.chars]

/-- What the static initializer of a plan is: a new one, or one that has the place of another
from which it differs in its body. -/
inductive PlannedInitializer (c : ClassFile) : Option Nat × Member → Prop where
  | added (info : Bytes)
    (hnone : ∀ m ∈ c.methods, ¬ (m.name = staticInitializer ∧ m.descriptor = "()V")) :
    PlannedInitializer c (none,
      { access := Access.staticFlag, name := staticInitializer, descriptor := "()V"
        attributes := [{ name := Code.attributeName, info }] })
  | extended (i : Nat) (old m : Member) (hold : c.methods[i]? = some old)
    (hsame : Rebodied old m) : PlannedInitializer c (some i, m)

/-- What a plan gives a carrier. -/
structure Plans (conventions : Conventions) (c : ClassFile) (plan : FactoryPlan) : Prop where
  /-- The factory takes what the old one takes. -/
  factory : ∃ params info, Plannable conventions c params ∧ plan.factory =
    { newFactory conventions c.name params with
      attributes := [{ name := Code.attributeName, info }] }
  instanceField : ∀ f, plan.instanceField = some f →
    (f.name, f.descriptor) = instanceKey conventions c.name ∧ f.attributes = []
      ∧ ¬ HasInstance conventions c
  clinit : ∀ planned, plan.clinit = some planned → PlannedInitializer c planned

section Plan

variable {conventions : Conventions} {c : ClassFile} {params : List FieldType}
  {pool pool' : ConstantPool} {plan : FactoryPlan}

/-- **The static initializer of a plan** is new, or one that was there with a new body in its
place. -/
theorem plannedInitializer_of_initializer {field fieldDescriptor : String}
    {planned : Option Nat × Member}
    (h : FactoryPlan.initializer c field fieldDescriptor pool = .ok planned pool') :
    PlannedInitializer c planned := by
  obtain ⟨instructions, mid, _, h⟩ := Interning.bind_eq_ok.1 h
  have hnew {pool pool' : ConstantPool}
      (hnone : ∀ m ∈ c.methods, ¬ (m.name = staticInitializer ∧ m.descriptor = "()V"))
      (h : (do return (none, ← FactoryPlan.newInitializer instructions) :
        Interning (Option Nat × Member)) pool = .ok planned pool') :
      PlannedInitializer c planned := by
    obtain ⟨m, _, hnew, hend⟩ := Interning.bind_eq_ok.1 h
    obtain ⟨hpair, _⟩ := Interning.pure_eq_ok.1 hend
    cases hpair
    obtain ⟨bytecode, _, hset⟩ := Interning.lift_bind_eq_ok.1 hnew
    obtain ⟨info, rfl⟩ := Member.eq_of_setCode rfl hset
    exact .added info hnone
  -- The initializer is extended where there is one at the position that was found.
  cases hposition : c.methods.findIdx? fun m =>
      m.name = staticInitializer && m.descriptor = "()V" with
  | none =>
    rw [hposition] at h
    refine hnew (fun m hm => ?_) h
    simpa using List.findIdx?_eq_none_iff.1 hposition m hm
  | some i =>
    rw [hposition] at h
    simp only [Option.bind_some] at h
    have hlt := (List.findIdx?_eq_some_iff_getElem.1 hposition).1
    have hold : c.methods[i]? = some c.methods[i] := List.getElem?_eq_getElem hlt
    simp only [hold] at h
    obtain ⟨m, _, hextend, hend⟩ := Interning.bind_eq_ok.1 h
    obtain ⟨hpair, _⟩ := Interning.pure_eq_ok.1 hend
    cases hpair
    have hextend := Interning.get_bind_eq_ok.1 hextend
    obtain ⟨found, hcode, hextend⟩ := Interning.lift_bind_eq_ok.1 hextend
    cases found with
    | none => cases hextend
    | some code =>
      obtain ⟨patched, _, hset⟩ := Interning.lift_bind_eq_ok.1 hextend
      exact .extended i _ m hold (Member.rebodied_of_setCode hcode hset)

/-! ## Whether there is a plan

A carrier either has what its factory needs, or there is no plan for it. That a plan fails has other
reasons, which are those of the pool and of the format. -/

/-- The plan for a carrier whose new factory takes the given parameters. -/
def planFor (conventions : Conventions) (c : ClassFile) (params : List FieldType) :
    Interning (Option FactoryPlan) :=
  let factory := newFactory conventions c.name params
  if params.isEmpty then FactoryPlan.shared? conventions c factory ("L" ++ c.name ++ ";")
  else FactoryPlan.fresh? c factory params

/-- A class for which there is a plan is in want of a new factory. It has an old factory, no new
one, and the means to make an instance. -/
theorem wantsFactory_of_of? (h : FactoryPlan.of? conventions c pool = .ok (some plan) pool') :
    ∃ params, WantsFactory conventions c params := by
  unfold FactoryPlan.of? at h
  by_cases hany : c.methods.any (·.name = conventions.replacementFactory)
  · -- Nothing is planned for a carrier that has a new factory already.
    rw [if_pos hany] at h
    cases h
  · rw [if_neg hany] at h
    cases hfound : c.methods.find? fun m => m.name = conventions.lambdaFactory && m.isStatic with
    | none =>
      rw [hfound] at h
      cases h
    | some old =>
      rw [hfound] at h
      obtain ⟨d, hd, _⟩ := Interning.lift_bind_eq_ok.1 h
      exact ⟨d.params, by simpa using hany, old, d, hfound, hd, rfl⟩

/-- For a carrier that wants a factory, the plan is the one for its parameters. -/
theorem WantsFactory.of?_eq (h : WantsFactory conventions c params) (pool : ConstantPool) :
    FactoryPlan.of? conventions c pool = planFor conventions c params pool := by
  obtain ⟨old, d, hold, hd, rfl⟩ := h.factory
  have hfresh : ¬ c.methods.any (·.name = conventions.replacementFactory) := by
    simpa using h.fresh
  unfold FactoryPlan.of?
  rw [if_neg hfresh, hold]
  show ((liftM (MethodDescriptor.parse old.descriptor) : Interning _) >>= _) pool = _
  rw [hd]
  rfl

/-- Whether the field is there is asked of the first one by its name and type. -/
theorem hasInstance_iff : HasInstance conventions c
    ↔ ((Member.find? conventions.lambdaInstanceField ("L" ++ c.name ++ ";") c.fields).map
      (·.isStatic)).getD false = true := by
  unfold HasInstance instanceKey
  cases Member.find? conventions.lambdaInstanceField ("L" ++ c.name ++ ";") c.fields <;> simp

/-- What comes of a carrier without captures: there is no plan only if it has not what its factory
needs. -/
theorem shared?_cases (hwants : WantsFactory conventions c []) {result : Option FactoryPlan}
    (h : FactoryPlan.shared? conventions c (newFactory conventions c.name [])
      ("L" ++ c.name ++ ";") pool = .ok result pool') :
    result = none ∧ ¬ HasSource conventions c []
      ∨ ∃ plan, result = some plan ∧ Plans conventions c plan := by
  have hdescriptor : "(" ++ FieldType.textOfAll [] ++ ")V" = "()V" := rfl
  unfold FactoryPlan.shared? at h
  simp only at h
  split at h
  · -- The field is there already, and only the factory is new.
    next hinstance =>
    obtain ⟨body, _, _, h⟩ := Interning.bind_eq_ok.1 h
    obtain ⟨factory, _, hset, hend⟩ := Interning.bind_eq_ok.1 h
    obtain ⟨rfl, _⟩ := Interning.pure_eq_ok.1 hend
    obtain ⟨info, hfactory⟩ := Member.eq_of_setCode rfl hset
    have hsource : HasSource conventions c [] := .inr ⟨rfl, hasInstance_iff.2 hinstance⟩
    exact .inr ⟨_, rfl, ⟨[], info, ⟨hwants, hsource⟩, hfactory⟩, by simp, by simp⟩
  · next hinstance =>
    rw [← hasInstance_iff] at hinstance
    split at h
    · next hconstructor =>
      obtain ⟨rfl, _⟩ := Interning.pure_eq_ok.1 h
      refine .inl ⟨rfl, ?_⟩
      rintro (hsource | ⟨_, hsource⟩)
      · rw [HasConstructor, hdescriptor, Option.isNone_iff_eq_none.1 hconstructor] at hsource
        cases hsource
      · exact hinstance hsource
    · -- The field is new, and so is what fills it.
      next hconstructor =>
      obtain ⟨planned, _, hinitializer, h⟩ := Interning.bind_eq_ok.1 h
      obtain ⟨body, _, _, h⟩ := Interning.bind_eq_ok.1 h
      obtain ⟨factory, _, hset, hend⟩ := Interning.bind_eq_ok.1 h
      obtain ⟨rfl, _⟩ := Interning.pure_eq_ok.1 hend
      obtain ⟨info, hfactory⟩ := Member.eq_of_setCode rfl hset
      have hsource : HasConstructor c [] := by
        rw [HasConstructor, hdescriptor]
        exact Option.isSome_iff_ne_none.2 (by simpa using hconstructor)
      refine .inr ⟨_, rfl, ⟨[], info, ⟨hwants, .inl hsource⟩, hfactory⟩, fun f hf => ?_,
        fun planned hclinit => ?_⟩
      · cases hf
        exact ⟨rfl, rfl, hinstance⟩
      · cases hclinit
        exact plannedInitializer_of_initializer hinitializer

/-- What comes of a carrier with captures. There is a plan if a constructor takes what the factory
takes, and otherwise nothing is planned. -/
theorem fresh?_cases (hwants : WantsFactory conventions c params) (hparams : params ≠ [])
    {result : Option FactoryPlan}
    (h : FactoryPlan.fresh? c (newFactory conventions c.name params) params pool
      = .ok result pool') :
    result = none ∧ ¬ HasSource conventions c params
      ∨ ∃ plan, result = some plan ∧ Plans conventions c plan := by
  unfold FactoryPlan.fresh? at h
  split at h
  · next hconstructor =>
    obtain ⟨rfl, _⟩ := Interning.pure_eq_ok.1 h
    refine .inl ⟨rfl, ?_⟩
    rintro (hsource | ⟨hnone, _⟩)
    · rw [HasConstructor, Option.isNone_iff_eq_none.1 hconstructor] at hsource
      cases hsource
    · exact hparams hnone
  · next hconstructor =>
    obtain ⟨body, _, _, h⟩ := Interning.bind_eq_ok.1 h
    obtain ⟨factory, _, hset, hend⟩ := Interning.bind_eq_ok.1 h
    obtain ⟨rfl, _⟩ := Interning.pure_eq_ok.1 hend
    obtain ⟨info, hfactory⟩ := Member.eq_of_setCode rfl hset
    -- The constructor that the body calls is the one that has been looked for.
    have hsource : HasConstructor c params :=
      Option.isSome_iff_ne_none.2 (by simpa using hconstructor)
    exact .inr ⟨_, rfl, ⟨params, info, ⟨hwants, .inl hsource⟩, hfactory⟩, by simp, by simp⟩

/-- What comes of a carrier that wants a factory: no plan without what that needs, and otherwise one
that gives it. -/
theorem planFor_cases (hwants : WantsFactory conventions c params)
    {result : Option FactoryPlan} (h : planFor conventions c params pool = .ok result pool') :
    result = none ∧ ¬ HasSource conventions c params
      ∨ ∃ plan, result = some plan ∧ Plans conventions c plan := by
  unfold planFor at h
  split at h
  · next hempty =>
    rw [List.isEmpty_iff] at hempty
    subst hempty
    exact shared?_cases hwants h
  · next hempty => exact fresh?_cases hwants (by simpa using hempty) h

/-- **What a lambda carrier gets.** -/
theorem plans_of_of? (h : FactoryPlan.of? conventions c pool = .ok (some plan) pool') :
    Plans conventions c plan := by
  obtain ⟨params, hwants⟩ := wantsFactory_of_of? h
  rw [hwants.of?_eq] at h
  rcases planFor_cases hwants h with ⟨hnone, _⟩ | ⟨plan', hplan, hplans⟩
  · cases hnone
  · cases hplan
    exact hplans

/-- **Where a carrier has what its new factory needs**, there is a plan or a failure. -/
theorem Plannable.of?_ne_none (h : Plannable conventions c params) :
    FactoryPlan.of? conventions c pool ≠ .ok none pool' := by
  rw [h.of?_eq]
  intro hnone
  rcases planFor_cases h.toWantsFactory hnone with ⟨_, hsource⟩ | ⟨plan, hplan, _⟩
  · exact hsource h.source
  · cases hplan

end Plan
end ClassLoom.Weave
