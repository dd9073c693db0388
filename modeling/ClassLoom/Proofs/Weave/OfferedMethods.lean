import ClassLoom.Proofs.Weave.MemberTables

/-!
# Default methods that a class lacks

Which forwarders a class needs, said without the order in which they are looked for: those for the
methods that an interface of the class offers (`Offers`) and that the class neither declares nor
inherits with a body (`LacksDefault`). The order says only which of several interfaces counts.

* `exists_mem_ofInterface_iff`, `mem_keys_needed_iff`: the forwarders that are needed;
* `Forwarder.rel_of_mem_firstOfEach`: the forwarder that is chosen comes first.
-/

namespace ClassLoom.Weave

open Redirection (declaresStatic)

variable {s : Surroundings} {c : ClassFile} {interfaceName name descriptor : String}

/-- Whether an interface that can be seen has the method without a body, and its companion has the
body: the first method of the companion with the name, and with the receiver in front of the
parameters, is static. -/
structure Offers (s : Surroundings) (interfaceName name descriptor : String) : Prop where
  declared : ∃ stub, s.scope.lookup interfaceName = some stub ∧ ∃ m ∈ stub.methods,
    m.isAbstract = true ∧ m.isStatic = false ∧ m.name = name ∧ m.descriptor = descriptor
  implemented : declaresStatic s (s.conventions.companionName interfaceName) name
    (Forwarder.withReceiver interfaceName descriptor) = true

/-- Whether a class has a method from its interfaces and lacks the body. -/
structure LacksDefault (s : Surroundings) (c : ClassFile) (name descriptor : String) : Prop where
  offered : ∃ interfaceName ∈ s.scope.interfaceClosure c.name,
    Offers s interfaceName name descriptor
  undeclared : ¬ c.Declares name descriptor
  uninherited : ¬ InheritsBody s.scope c.name name descriptor

/-! ## The forwarders for an interface

A forwarder is made for a method that the interface leaves without a body and its companion has.
Both are looked up by name and descriptor. -/

/-- The companion that implements a method can be seen. -/
theorem declaresStatic_eq_true_iff {owner : String} : declaresStatic s owner name descriptor = true
    ↔ ∃ stub, s.scope.lookup owner = some stub
      ∧ ((stub.method? name descriptor).map (·.isStatic)).getD false = true := by
  unfold declaresStatic
  cases s.scope.lookup owner with
  | none => simp
  | some stub => simp

/-- **Forwarders are for what interfaces offer.** An interface offers a method if it declares it
without a body and its companion has the body. -/
theorem exists_mem_ofInterface_iff : Offers s interfaceName name descriptor
    ↔ ∃ f ∈ Forwarder.ofInterface s interfaceName, f.key = (name, descriptor) := by
  constructor
  · rintro ⟨⟨stub, hstub, m, hm, habstract, hstatic, rfl, rfl⟩, himplemented⟩
    obtain ⟨companion, hcompanion, htarget⟩ := declaresStatic_eq_true_iff.1 himplemented
    exact ⟨_, Forwarder.mem_ofInterface.2
      ⟨stub, companion, m, hstub, hcompanion, hm, habstract, hstatic, htarget, rfl⟩, rfl⟩
  · rintro ⟨f, hf, hkey⟩
    obtain ⟨stub, companion, m, hstub, hcompanion, hm, habstract, hstatic, htarget, rfl⟩ :=
      Forwarder.mem_ofInterface.1 hf
    cases hkey
    exact ⟨⟨stub, hstub, m, hm, habstract, hstatic, rfl, rfl⟩,
      declaresStatic_eq_true_iff.2 ⟨companion, hcompanion, htarget⟩⟩

/-- The companions of two interfaces have different names. -/
theorem companionName_inj {conventions : Conventions} {other : String}
    (h : conventions.companionName interfaceName = conventions.companionName other) :
    interfaceName = other := by
  have h := congrArg String.toList h
  unfold Conventions.companionName at h
  rw [String.toList_append, String.toList_append, List.append_cancel_right_eq] at h
  exact String.toList_inj.1 h

/-- A forwarder for an interface calls the companion of that interface. -/
theorem companion_of_mem_ofInterface {f : Forwarder}
    (hf : f ∈ Forwarder.ofInterface s interfaceName) :
    f.companion = s.conventions.companionName interfaceName := by
  obtain ⟨_, _, _, _, _, _, _, _, _, rfl⟩ := Forwarder.mem_ofInterface.1 hf
  rfl

/-- Forwarders tell by their companions which interfaces they are for. -/
theorem eq_of_mem_ofInterface {f : Forwarder} {other : String}
    (hf : f ∈ Forwarder.ofInterface s interfaceName)
    (hbound : f.companion = s.conventions.companionName other) : interfaceName = other :=
  companionName_inj ((companion_of_mem_ofInterface hf).symm.trans hbound)

/-! ## The forwarders that are needed

A class gets one forwarder for each method, unless it has the method already. Which interface it is
for is a matter of their order. -/

/-- A class need not get what it declares or inherits with a body, and nothing else. -/
theorem Forwarder.mem_implemented_iff : (name, descriptor) ∈ implemented s c
    ↔ c.Declares name descriptor ∨ InheritsBody s.scope c.name name descriptor := by
  refine ⟨declares_or_inherits, ?_⟩
  rintro (⟨m, hm, rfl, rfl⟩ | ⟨parent, hparent, m, hm, hbody, rfl, rfl⟩)
  · exact List.mem_append_left _ (List.mem_map_of_mem hm)
  · have hkept : m ∈ parent.methods.filter fun m => !m.isAbstract :=
      List.mem_filter.2 ⟨hm, by rw [hbody]; rfl⟩
    exact List.mem_append_right _
      (List.mem_flatMap.2 ⟨parent, hparent, List.mem_map.2 ⟨m, hkept, rfl⟩⟩)

/-- **A class needs forwarders for the default methods that it lacks.** What it lacks is told by its
own methods, its superclasses, and what its interfaces offer. -/
theorem mem_keys_needed_iff : (name, descriptor) ∈ (Forwarder.needed s c).map Forwarder.key
    ↔ LacksDefault s c name descriptor := by
  have hfree := (Forwarder.nodup_firstOfEach (Forwarder.implemented s c)
    ((s.scope.interfaceClosure c.name).flatMap (Forwarder.ofInterface s))).2
  constructor
  · intro h
    obtain ⟨f, hf, hkey⟩ := List.mem_map.1 h
    obtain ⟨interfaceName, hinterface, hmem⟩ :=
      List.mem_flatMap.1 (Forwarder.mem_of_mem_firstOfEach hf)
    have hlacks := hfree f hf
    rw [hkey, Forwarder.mem_implemented_iff, not_or] at hlacks
    exact ⟨⟨interfaceName, hinterface, exists_mem_ofInterface_iff.2 ⟨f, hmem, hkey⟩⟩, hlacks.1,
      hlacks.2⟩
  · rintro ⟨⟨interfaceName, hinterface, hoffers⟩, hundeclared, huninherited⟩
    obtain ⟨f, hf, hkey⟩ := exists_mem_ofInterface_iff.1 hoffers
    have hmem := List.mem_flatMap.2 ⟨interfaceName, hinterface, hf⟩
    -- Of the forwarders for the method one is taken, unless the class has it.
    rcases Forwarder.exists_mem_firstOfEach (Forwarder.implemented s c) hmem with
      htaken | ⟨g, hg, hsame⟩
    · rw [hkey, Forwarder.mem_implemented_iff] at htaken
      exact absurd htaken (not_or.2 ⟨hundeclared, huninherited⟩)
    · exact List.mem_map.2 ⟨g, hg, hsame.trans hkey⟩

instance : Decidable (Offers s interfaceName name descriptor) :=
  decidable_of_iff _ exists_mem_ofInterface_iff.symm

instance : Decidable (LacksDefault s c name descriptor) :=
  decidable_of_iff _ mem_keys_needed_iff

/-! ## The order

The first of several forwarders for one method is taken, in the order in which the interfaces of the
class are listed. -/

namespace Forwarder

/-- No forwarder for the same method stands before one that is chosen. So the one that is chosen is
for the nearest interface. -/
theorem exists_split_of_mem_firstOfEach {taken : List (String × String)} {fs : List Forwarder}
    {f : Forwarder} (h : f ∈ firstOfEach taken fs) :
    ∃ before after, fs = before ++ f :: after ∧ ∀ g ∈ before, g.key ≠ f.key := by
  induction fs generalizing taken with
  | nil => cases h
  | cons first rest ih =>
    -- Whether `first` is chosen or not, its method is taken for what comes later.
    have hlater {taken : List (String × String)} (h : f ∈ firstOfEach taken rest)
        (htaken : first.key ∈ taken) :
        ∃ before after, first :: rest = before ++ f :: after ∧ ∀ g ∈ before, g.key ≠ f.key := by
      obtain ⟨before, after, hsplit, hbefore⟩ := ih h
      refine ⟨first :: before, after, congrArg _ hsplit, List.forall_mem_cons.2 ⟨?_, hbefore⟩⟩
      intro hkey
      exact (nodup_firstOfEach taken rest).2 f h (hkey ▸ htaken)
    rw [firstOfEach] at h
    split at h
    · next htaken => exact hlater h (List.contains_iff_mem.1 htaken)
    · rcases List.mem_cons.1 h with rfl | h
      · exact ⟨[], rest, rfl, List.forall_mem_nil _⟩
      · exact hlater h (List.mem_cons_self ..)

/-- In a list with an order, a forwarder that is chosen comes before all others for its method. -/
theorem rel_of_mem_firstOfEach {R : Forwarder → Forwarder → Prop} {fs : List Forwarder}
    (hR : fs.Pairwise R) {taken : List (String × String)} {f g : Forwarder}
    (hf : f ∈ firstOfEach taken fs) (hg : g ∈ fs) (hkey : g.key = f.key) : g = f ∨ R f g := by
  obtain ⟨before, after, rfl, hbefore⟩ := exists_split_of_mem_firstOfEach hf
  rcases List.mem_append.1 hg with hg | hg
  · exact absurd hkey (hbefore g hg)
  · refine (List.mem_cons.1 hg).imp_right fun hg => ?_
    exact (List.pairwise_cons.1 (List.pairwise_append.1 hR).2.1).1 g hg

end Forwarder

/-! ## Small classes

Classes for the instances below and in the modules that follow. -/

/-- An interface that extends others and has a method `m` without a body. -/
def interfaceWithM (name descriptor : String) (interfaces : List String) : ClassFile where
  access := Access.publicFlag ||| Access.interfaceFlag ||| Access.abstractFlag
  name := name
  superName := some "java/lang/Object"
  interfaces := interfaces
  methods := [{ access := Access.publicFlag ||| Access.abstractFlag, name := "m", descriptor }]

/-- The companion of an interface, which implements `m`. -/
def companionWithM (interfaceName descriptor : String) : ClassFile where
  access := Access.publicFlag
  name := interfaceName ++ "$"
  superName := some "java/lang/Object"
  methods := [{
    access := Access.publicFlag ||| Access.staticFlag, name := "m"
    descriptor := Forwarder.withReceiver interfaceName descriptor }]

/-- A class `X` with the given interfaces and no methods. -/
def classWithout (interfaces : List String) : ClassFile where
  access := Access.publicFlag
  name := "X"
  superName := some "java/lang/Object"
  interfaces := interfaces

/-- The interfaces `I` and `J`, of which `J` extends `I`, and their companions. -/
def extendedInterfaces : List ClassFile :=
  [interfaceWithM "I" "()V" [], companionWithM "I" "()V", interfaceWithM "J" "()V" ["I"],
    companionWithM "J" "()V"]

end ClassLoom.Weave
