import ClassLoom.Proofs.Scope.InterfaceOrder
import ClassLoom.Proofs.Weave.OfferedMethods
import ClassLoom.Proofs.Weave.WovenScope

/-!
# Which interface a forwarder is for

Of several interfaces that offer a method, the one that is listed first gets the forwarder. The
list goes by the steps from the class and not by what is more specific, so an interface can come
before one that extends it (`general_before_specific`). It does so only where the class has it in
another way as well.

* `rel_of_mem_needed`: the interface of a forwarder comes before all others that offer the method;
* `nearest_of_mem_needed`: what that says about steps and ways.
-/

namespace ClassLoom.Weave

variable {s : Surroundings} {c : ClassFile} {f : Forwarder} {interfaceName other : String}

/-- **The interface of a forwarder comes before all others that offer the method**, whatever the
interfaces are ordered by. -/
theorem rel_of_mem_needed {R : String → String → Prop}
    (hR : (s.scope.interfaceClosure c.name).Pairwise R) (hf : f ∈ Forwarder.needed s c)
    (hbound : f.companion = s.conventions.companionName interfaceName)
    (hother : other ∈ s.scope.interfaceClosure c.name)
    (hoffers : Offers s other f.name f.descriptor) :
    other = interfaceName ∨ R interfaceName other := by
  obtain ⟨g, hg, hkey⟩ := exists_mem_ofInterface_iff.1 hoffers
  -- The order of the interfaces is one of their forwarders, which tell by their companions which
  -- interface they are for.
  have hordered : ((s.scope.interfaceClosure c.name).flatMap (Forwarder.ofInterface s)).Pairwise
      fun f g => ∀ i j, f.companion = s.conventions.companionName i →
        g.companion = s.conventions.companionName j → j = i ∨ R i j := by
    refine List.pairwise_flatMap.2 ⟨fun k _ => ?_, hR.imp fun {k l} hkl f hf g hg i j hi hj => ?_⟩
    · refine List.pairwise_of_forall_mem_list fun f hf g hg i j hi hj => .inl ?_
      exact (eq_of_mem_ofInterface hg hj).symm.trans (eq_of_mem_ofInterface hf hi)
    · obtain rfl := eq_of_mem_ofInterface hf hi
      obtain rfl := eq_of_mem_ofInterface hg hj
      exact .inr hkl
  rcases Forwarder.rel_of_mem_firstOfEach hordered hf (List.mem_flatMap.2 ⟨other, hother, hg⟩) hkey
    with rfl | hbefore
  · exact .inl (eq_of_mem_ofInterface hg hbound)
  · exact hbefore _ _ hbound (companion_of_mem_ofInterface hg)

/-- The interface of a forwarder is one that offers the method. -/
theorem offers_of_mem_needed (hf : f ∈ Forwarder.needed s c)
    (hbound : f.companion = s.conventions.companionName interfaceName) :
    interfaceName ∈ s.scope.interfaceClosure c.name
      ∧ Offers s interfaceName f.name f.descriptor := by
  obtain ⟨found, hfound, hmem⟩ := List.mem_flatMap.1 (Forwarder.mem_of_mem_firstOfEach hf)
  obtain rfl := eq_of_mem_ofInterface hmem hbound
  exact ⟨hfound, exists_mem_ofInterface_iff.2 ⟨f, hmem, rfl⟩⟩

/-- **Where the interface of a forwarder stands among those that offer the method.** Any other one
is listed behind it and is no nearer, and the class has the interface of the forwarder also without
passing through the other one. -/
theorem nearest_of_mem_needed (hf : f ∈ Forwarder.needed s c)
    (hbound : f.companion = s.conventions.companionName interfaceName)
    (hother : other ∈ s.scope.interfaceClosure c.name) (hne : other ≠ interfaceName)
    (hoffers : Offers s other f.name f.descriptor) :
    [interfaceName, other].Sublist (s.scope.interfaceClosure c.name)
      ∧ s.scope.NoFarther (s.scope.listedInterfaces c.name) interfaceName other
      ∧ ∃ via, s.scope.Ascends (s.scope.listedInterfaces c.name) via interfaceName
        ∧ other ∉ via := by
  obtain ⟨hinterface, _⟩ := offers_of_mem_needed hf hbound
  obtain ⟨via, hvia⟩ := Scope.exists_ascends_of_mem_interfaceClosure hinterface
  have hfarther : s.scope.NoFarther (s.scope.listedInterfaces c.name) interfaceName other :=
    (rel_of_mem_needed (Scope.pairwise_interfaceClosure s.scope c.name) hf hbound hother
      hoffers).resolve_left hne
  have hlisted : (s.scope.interfaceClosure c.name).Pairwise fun i j =>
      [i, j].Sublist (s.scope.interfaceClosure c.name) :=
    List.pairwise_iff_forall_sublist.2 fun h => h
  exact ⟨(rel_of_mem_needed hlisted hf hbound hother hoffers).resolve_left hne, hfarther,
    hfarther.exists_avoiding hvia⟩

/-! ## An interface that is listed before one that extends it

The walk goes by steps and not by generality. A class that lists an interface itself has it in one
step, although another of its interfaces may extend it. -/

/-- `X` lists `I` and `J`, of which `J` extends `I`, and gets a forwarder to the companion of
`I`. -/
theorem forwards_to_first : ∃ conventions s, polyfillsInR.conventions = .ok conventions
    ∧ s = surroundings conventions (.ofClasses extendedInterfaces) [classWithout ["I", "J"]]
    ∧ "J" ∈ s.scope.interfaceClosure "X" ∧ "I" ∈ s.scope.interfacesOf "J"
    ∧ Offers s "J" "m" "()V"
    ∧ ∃ f ∈ Forwarder.needed s (classWithout ["I", "J"]), f.key = ("m", "()V")
      ∧ f.companion = s.conventions.companionName "I" := by
  have hevaluated : (do
      let conventions ← polyfillsInR.conventions.toOption
      let s := surroundings conventions (.ofClasses extendedInterfaces) [classWithout ["I", "J"]]
      return decide ("J" ∈ s.scope.interfaceClosure "X" ∧ "I" ∈ s.scope.interfacesOf "J"
        ∧ Offers s "J" "m" "()V"
        ∧ ∃ f ∈ Forwarder.needed s (classWithout ["I", "J"]), f.key = ("m", "()V")
          ∧ f.companion = s.conventions.companionName "I")) = some true := by
    decide +kernel
  simp only [toOption_bind_eq_some] at hevaluated
  obtain ⟨conventions, hconventions, hchecked⟩ := hevaluated
  exact ⟨conventions, _, hconventions, rfl, of_decide_eq_true (Option.some.inj hchecked)⟩

/-- The forwarder of `X` is for `I`, which is listed before `J`. -/
theorem nearest_of_mem_needed_extended : ∃ conventions s,
    polyfillsInR.conventions = .ok conventions
      ∧ s = surroundings conventions (.ofClasses extendedInterfaces) [classWithout ["I", "J"]]
      ∧ ∃ f ∈ Forwarder.needed s (classWithout ["I", "J"]),
        f.companion = s.conventions.companionName "I" ∧ "J" ∈ s.scope.interfaceClosure "X"
        ∧ "J" ≠ "I" ∧ Offers s "J" f.name f.descriptor
        ∧ ["I", "J"].Sublist (s.scope.interfaceClosure "X")
        ∧ s.scope.NoFarther (s.scope.listedInterfaces "X") "I" "J"
        ∧ ∃ via, s.scope.Ascends (s.scope.listedInterfaces "X") via "I" ∧ "J" ∉ via := by
  obtain ⟨conventions, s, hconventions, hs, hother, _, hoffers, f, hf, hkey, hbound⟩ :=
    forwards_to_first
  obtain ⟨hname, hdescriptor⟩ : f.name = "m" ∧ f.descriptor = "()V" := Prod.mk.inj hkey
  rw [← hname, ← hdescriptor] at hoffers
  have hne : "J" ≠ "I" := by decide
  exact ⟨conventions, s, hconventions, hs, f, hf, hbound, hother, hne, hoffers,
    nearest_of_mem_needed hf hbound hother hne hoffers⟩

/-- No interface of `extendedInterfaces` extends itself, and neither does the class. -/
theorem wellFounded_extendedInterfaces : WellFounded fun parent child => parent ∈ (Scope.ofBatch
    [classWithout ["I", "J"]] (.ofClasses extendedInterfaces)).interfacesOf child := by
  let rank (name : String) : Nat := if name = "X" then 2 else if name = "J" then 1 else 0
  refine Subrelation.wf (fun {parent child} hparent => ?_) (measure rank).wf
  unfold Scope.interfacesOf at hparent
  split at hparent
  · next stub hstub =>
    obtain ⟨hname, d, hd, hdstub⟩ := Scope.exists_of_lookup_ofBatch hstub
    obtain ⟨_, _, _, _, rfl⟩ := ClassFile.stub_eq_ok.1 hdstub
    subst hname
    have hranks : ∀ d ∈ [classWithout ["I", "J"]] ++ extendedInterfaces,
        ∀ parent ∈ d.interfaces, rank parent < rank d.name := by
      decide
    exact hranks d hd parent hparent
  · cases hparent

/-- **An interface can come before one that is more specific**, also where none extends itself: `X`
gets a forwarder to the companion of `I`, although `J` extends `I` and offers the method. -/
theorem general_before_specific : ∃ conventions s, polyfillsInR.conventions = .ok conventions
    ∧ s = surroundings conventions (.ofClasses extendedInterfaces) [classWithout ["I", "J"]]
    ∧ (WellFounded fun parent child => parent ∈ s.scope.interfacesOf child)
    ∧ "J" ∈ s.scope.interfaceClosure "X" ∧ "I" ∈ s.scope.interfacesOf "J"
    ∧ Offers s "J" "m" "()V"
    ∧ ∃ f ∈ Forwarder.needed s (classWithout ["I", "J"]), f.key = ("m", "()V")
      ∧ f.companion = s.conventions.companionName "I" := by
  obtain ⟨conventions, s, hconventions, hs, hforwards⟩ := forwards_to_first
  refine ⟨conventions, s, hconventions, hs, ?_, hforwards⟩
  rw [hs]
  exact wellFounded_extendedInterfaces

end ClassLoom.Weave
