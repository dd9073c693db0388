import ClassLoom.Proofs.Weave.Declared

/-!
# Forwarders that a class gets

Of all default methods that a class could forward to, it gets those that it does not have, each
once. A forwarder that it needs is a method of it then, or is reported.

* `exists_of_mem_firstOfEach`, `exists_mem_firstOfEach`: the choice among forwarders;
* `declares_or_reported`: what becomes of those that are needed;
* `declares_or_reported_prepare`: the default methods of a class that has been prepared.
-/

namespace ClassLoom.Weave

namespace Forwarder

/-! ## The choice

One forwarder is chosen for each method, the first in the order of interfaces. -/

theorem mem_of_mem_firstOfEach {taken : List (String × String)} {fs : List Forwarder}
    {f : Forwarder} (h : f ∈ firstOfEach taken fs) : f ∈ fs := by
  induction fs generalizing taken with
  | nil => cases h
  | cons first rest ih =>
    rw [firstOfEach] at h
    split at h
    · exact List.mem_cons_of_mem _ (ih h)
    · rcases List.mem_cons.1 h with rfl | h
      · exact List.mem_cons_self ..
      · exact List.mem_cons_of_mem _ (ih h)

/-- Every forwarder is for a method that is taken, or for one of those that are chosen. The first
one for a method is chosen, so it stands in front of the given one or is that itself. -/
theorem exists_mem_firstOfEach (taken : List (String × String)) {fs : List Forwarder}
    {f : Forwarder} (h : f ∈ fs) : f.key ∈ taken ∨ ∃ g ∈ firstOfEach taken fs, g.key = f.key := by
  -- What is taken grows by what the first one is for, when that is chosen.
  induction fs generalizing taken with
  | nil => cases h
  | cons first rest ih =>
    rw [firstOfEach]
    split
    · next htaken =>
      rw [List.contains_iff_mem] at htaken
      rcases List.mem_cons.1 h with rfl | h
      · exact .inl htaken
      · exact ih taken h
    · rcases List.mem_cons.1 h with rfl | h
      · exact .inr ⟨f, List.mem_cons_self .., rfl⟩
      · rcases ih (first.key :: taken) h with htaken | ⟨g, hg, hkey⟩
        · rcases List.mem_cons.1 htaken with hkey | htaken
          · exact .inr ⟨first, List.mem_cons_self .., hkey.symm⟩
          · exact .inl htaken
        · exact .inr ⟨g, List.mem_cons_of_mem _ hg, hkey⟩

/-- The forwarders for an interface are those for its methods without bodies that its companion
has. -/
theorem mem_ofInterface {s : Surroundings} {interfaceName : String} {f : Forwarder} :
    f ∈ ofInterface s interfaceName ↔ ∃ stub companion m,
      s.scope.lookup interfaceName = some stub
        ∧ s.scope.lookup (s.conventions.companionName interfaceName) = some companion
        ∧ m ∈ stub.methods ∧ m.isAbstract = true ∧ m.isStatic = false
        ∧ ((companion.method? m.name (withReceiver interfaceName m.descriptor)).map
          (·.isStatic)).getD false = true
        ∧ f = { name := m.name, descriptor := m.descriptor, parsed := m.parsed
                companion := s.conventions.companionName interfaceName
                companionDescriptor := withReceiver interfaceName m.descriptor } := by
  unfold ofInterface
  simp only
  constructor
  · intro h
    -- Both stubs must be seen, and the method must be one without a body that the companion has.
    split at h
    · next stub companion hstub hcompanion =>
      obtain ⟨m, hm, hf⟩ := List.mem_filterMap.1 h
      unfold ofMethod? at hf
      simp only at hf
      split at hf
      · next hneeds =>
        simp only [Bool.and_eq_true, Bool.not_eq_true'] at hneeds
        cases hf
        exact ⟨stub, companion, m, hstub, hcompanion, hm, hneeds.1.1, hneeds.1.2, hneeds.2, rfl⟩
      · cases hf
    · cases h
  · rintro ⟨stub, companion, m, hstub, hcompanion, hm, habstract, hstatic, htarget, rfl⟩
    rw [hstub, hcompanion]
    refine List.mem_filterMap.2 ⟨m, hm, ?_⟩
    unfold ofMethod?
    simp only [habstract, hstatic, htarget, Bool.not_false, Bool.and_self, if_true]

/-! ## Their methods

Every forwarder that is chosen is in the class afterwards, or has been reported. -/

/-- A class has a forwarder once it has been added, or the forwarder is reported. A report says
which method is missing. -/
theorem declares_or_reported_addTo (c : ClassFile) (ds : List Diagnostic) (f : Forwarder) :
    (addTo (c, ds) f).1.Declares f.name f.descriptor
      ∨ ∃ message, .malformed (.ofMethod c.name f.name f.descriptor) message
        ∈ (addTo (c, ds) f).2 := by
  simp only [addTo]
  cases hmethod : f.method.on c.pool with
  | ok made =>
    obtain ⟨m, pool⟩ := made
    obtain ⟨info, hm⟩ := f.eq_of_method (Interning.on_eq_ok.1 hmethod)
    refine .inl ⟨m, List.mem_append_right _ (List.mem_singleton.2 rfl), ?_⟩
    rw [hm]
    exact ⟨rfl, rfl⟩
  | error e => exact .inr ⟨e.message, List.mem_append_right _ (List.mem_singleton.2 rfl)⟩

/-- What has been reported stays. -/
theorem mem_foldl_addTo {fs : List Forwarder} {state : ClassFile × List Diagnostic}
    {d : Diagnostic} (h : d ∈ state.2) : d ∈ (fs.foldl addTo state).2 := by
  induction fs generalizing state with
  | nil => exact h
  | cons f fs ih =>
    obtain ⟨c, ds⟩ := state
    refine ih ?_
    simp only [addTo]
    cases f.method.on c.pool with
    | ok made => exact h
    | error e => exact List.mem_append_left _ h

theorem declares_or_reported_foldl {fs : List Forwarder} {f : Forwarder} (hf : f ∈ fs)
    (conventions : Conventions) (c : ClassFile) (ds : List Diagnostic) :
    (fs.foldl addTo (c, ds)).1.Declares f.name f.descriptor
      ∨ ∃ message, .malformed (.ofMethod c.name f.name f.descriptor) message
        ∈ (fs.foldl addTo (c, ds)).2 := by
  induction fs generalizing c ds with
  | nil => cases hf
  | cons first rest ih =>
    have hadded := declares_or_reported_addTo c ds first
    have hname := (addTo_extends c ds first).name
    rw [List.foldl_cons]
    generalize addTo (c, ds) first = state at hadded hname ⊢
    obtain ⟨c', ds'⟩ := state
    rcases List.mem_cons.1 hf with rfl | hf
    · -- Neither its method nor the report goes away, whatever is added behind it.
      rcases hadded with hdeclares | ⟨message, hreported⟩
      · exact .inl ((foldl_addTo_keepsAll conventions rest c' ds').declares hdeclares)
      · exact .inr ⟨message, mem_foldl_addTo hreported⟩
    · rw [← hname]
      exact ih hf c' ds'

end Forwarder

/-- **A class that needs a forwarder has it then**, or it is reported. -/
theorem declares_or_reported {s : Surroundings} {c : ClassFile} (hclass : c.isInterface = false)
    {f : Forwarder} (hf : f ∈ Forwarder.needed s c) :
    (addForwarders s c).1.Declares f.name f.descriptor
      ∨ ∃ message, .malformed (.ofMethod c.name f.name f.descriptor) message
        ∈ (addForwarders s c).2 := by
  unfold addForwarders
  rw [hclass]
  exact Forwarder.declares_or_reported_foldl hf s.conventions c []

/-! ## The first phase

Forwarders are the last of the three steps, so nothing takes them away before the phase is over. -/

/-- Whether a proper superclass that can be seen has a method with a body. -/
def InheritsBody (scope : Scope) (className name descriptor : String) : Prop :=
  ∃ parent ∈ (scope.superclasses className).drop 1, ∃ m ∈ parent.methods,
    m.isAbstract = false ∧ m.name = name ∧ m.descriptor = descriptor

instance (scope : Scope) (className name descriptor : String) :
    Decidable (InheritsBody scope className name descriptor) :=
  inferInstanceAs (Decidable (∃ parent ∈ (scope.superclasses className).drop 1,
    ∃ m ∈ parent.methods, m.isAbstract = false ∧ m.name = name ∧ m.descriptor = descriptor))

/-- A method that a class need not get is one of its own, or is inherited with a body. The one that
is inherited may be in any superclass that can be seen. -/
theorem Forwarder.declares_or_inherits {s : Surroundings} {c : ClassFile} {name descriptor : String}
    (h : (name, descriptor) ∈ implemented s c) :
    c.Declares name descriptor ∨ InheritsBody s.scope c.name name descriptor := by
  rcases List.mem_append.1 h with hown | hinherited
  · obtain ⟨m, hm, hkey⟩ := List.mem_map.1 hown
    cases hkey
    exact .inl ⟨m, hm, rfl, rfl⟩
  · obtain ⟨parent, hparent, hmem⟩ := List.mem_flatMap.1 hinherited
    obtain ⟨m, hm, hkey⟩ := List.mem_map.1 hmem
    obtain ⟨hm, hbody⟩ := List.mem_filter.1 hm
    cases hkey
    exact .inr ⟨parent, hparent, m, hm, by simpa using hbody, rfl, rfl⟩

/-- **A class that has been prepared has the default methods of its interfaces**: as its own
methods, or as inherited ones, if it is not reported that it cannot have them. The interfaces are
those that can be seen when preparing starts. -/
theorem declares_or_reported_prepare {s : Surroundings} {c : ClassFile}
    (hclass : c.isInterface = false) {interfaceName : String}
    (hinterface : interfaceName ∈ s.scope.interfaceClosure c.name) {f : Forwarder}
    (hf : f ∈ Forwarder.ofInterface s interfaceName) :
    (prepare s c).1.Declares f.name f.descriptor
      ∨ InheritsBody s.scope c.name f.name f.descriptor
      ∨ ∃ message, .malformed (.ofMethod c.name f.name f.descriptor) message
        ∈ (prepare s c).2 := by
  have hkeeps := (prepareCarrier_keepsAll s c).trans
    (retypeAllLocals_keepsAll s.conventions s (prepareCarrier s c).1)
  rw [prepare_fst, prepare_snd]
  -- Forwarders come last, into a class with the name and all the methods of the one at the start.
  generalize (retypeAllLocals s (prepareCarrier s c).1).1 = retyped at hkeeps ⊢
  have hname := hkeeps.outline.name
  have hclass : retyped.isInterface = false := hkeeps.outline.isInterface_eq.trans hclass
  have hmem : f ∈ (s.scope.interfaceClosure retyped.name).flatMap (Forwarder.ofInterface s) := by
    rw [hname]
    exact List.mem_flatMap.2 ⟨interfaceName, hinterface, hf⟩
  rcases Forwarder.exists_mem_firstOfEach (Forwarder.implemented s retyped) hmem with
    htaken | ⟨g, hg, hkey⟩
  · rcases Forwarder.declares_or_inherits htaken with hdeclares | hinherits
    · exact .inl ((addForwarders_keepsAll s.conventions s retyped).declares hdeclares)
    · exact .inr (.inl (hname ▸ hinherits))
  · have hkeys : g.name = f.name ∧ g.descriptor = f.descriptor := Prod.mk.inj hkey
    have hgets := declares_or_reported hclass hg
    rw [hkeys.1, hkeys.2, hname] at hgets
    rcases hgets with hdeclares | ⟨message, hreported⟩
    · exact .inl hdeclares
    · exact .inr (.inr ⟨message, List.mem_append_right _ hreported⟩)

end ClassLoom.Weave
