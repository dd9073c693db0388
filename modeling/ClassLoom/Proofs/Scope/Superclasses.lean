import Mathlib.Data.List.Nodup
import Mathlib.Data.List.Perm.Subperm
import ClassLoom.Scope

/-!
# The chain of superclasses

A chain of superclasses passes no class twice, so it cannot be longer than there are classes to be
seen, and the steps that `Scope.superclasses` takes at most are enough. What it gives can then be
said without them: the classes above a class, step by step (`ancestor?`), up to the first that
cannot be seen or that came before (`IsChain`).

* `length_le_size`, `length_names_le_size`: how many classes can be seen;
* `IsChain.unique`: a class has one chain;
* `isChain_superclasses`: it is the one that is listed.
-/

namespace ClassLoom.Scope

variable {scope : Scope} {name : String} {stub : ClassStub}

/-! ## How many classes can be seen

The walks over superclasses and interfaces are bounded by a number, which is more than there are
names to come by. So the bound cuts nothing off. -/

/-- The names under which classes can be seen, those of the batch first. -/
def names (scope : Scope) : List String := scope.batch.stubs.keys ++ scope.classpath.stubs.keys

theorem length_names (scope : Scope) : scope.names.length = scope.size := by
  rw [names, List.length_append, Std.TreeMap.length_keys, Std.TreeMap.length_keys]
  rfl

/-- What can be seen has one of the names. -/
theorem mem_names (h : scope.lookup name = some stub) : name ∈ scope.names := by
  have hindex {index : ClassIndex} (h : index.lookup name = some stub) :
      name ∈ index.stubs.keys := by
    rw [Std.TreeMap.mem_keys, Std.TreeMap.mem_iff_isSome_getElem?]
    exact Option.isSome_of_eq_some h
  unfold lookup at h
  rw [Option.orElse_eq_orElse, Option.orElse_eq_or, Option.or_eq_some_iff] at h
  rcases h with hbatch | ⟨_, hclasspath⟩
  · exact List.mem_append_left _ (hindex hbatch)
  · exact List.mem_append_right _ (hindex hclasspath)

/-- **No more classes than `size` can be seen.** A list of stubs without doubles, all of which can
be seen, is no longer than that. -/
theorem length_le_size {stubs : List ClassStub} (hnodup : stubs.Nodup)
    (h : ∀ stub ∈ stubs, ∃ name, scope.lookup name = some stub) :
    stubs.length ≤ scope.size := by
  have hsubset : stubs ⊆ scope.names.filterMap scope.lookup := by
    intro stub hstub
    obtain ⟨name, hname⟩ := h stub hstub
    exact List.mem_filterMap.2 ⟨name, mem_names hname, hname⟩
  calc stubs.length
      ≤ (scope.names.filterMap scope.lookup).length :=
        (List.subperm_of_subset hnodup hsubset).length_le
    _ ≤ scope.names.length := List.length_filterMap_le ..
    _ = scope.size := length_names scope

/-- **Nor can they be seen under more names.** -/
theorem length_names_le_size {names : List String} (hnodup : names.Nodup)
    (h : ∀ name ∈ names, ∃ stub, scope.lookup name = some stub) : names.length ≤ scope.size := by
  have hsubset : names ⊆ scope.names := by
    intro name hname
    obtain ⟨stub, hstub⟩ := h name hname
    exact mem_names hstub
  rw [← length_names]
  exact (List.subperm_of_subset hnodup hsubset).length_le

/-! ## Ancestors

The chain is said without a walk: by what stands so many steps above a class, that no class comes
twice, and by what ends it. -/

/-- The class so many steps above the class `name`, if all classes up to it can be seen. It need
not be one that has not come before. -/
def ancestor? (scope : Scope) (name : String) : Nat → Option ClassStub
  | 0 => scope.lookup name
  | n + 1 => ((scope.ancestor? name n).bind (·.superName)).bind scope.lookup

/-- Above a class there is what its superclass is and what is above that. -/
theorem ancestor?_succ (h : scope.lookup name = some stub) (n : Nat) :
    scope.ancestor? name (n + 1) = stub.superName.bind (scope.ancestor? · n) := by
  induction n with
  | zero =>
    show ((scope.lookup name).bind (·.superName)).bind scope.lookup = _
    rw [h]
    rfl
  | succ n ih =>
    show ((scope.ancestor? name (n + 1)).bind (·.superName)).bind scope.lookup = _
    rw [ih]
    cases stub.superName <;> rfl

/-- Whether a list is the chain of superclasses from the class `name` on, up to the first class
that cannot be seen, or that has come before or is named as one of `seen`. -/
structure IsChain (scope : Scope) (seen : List String) (name : String) (chain : List ClassStub) :
    Prop where
  ancestor : ∀ n < chain.length, scope.ancestor? name n = chain[n]?
  nodup : (chain.map (·.name)).Nodup
  fresh : ∀ stub ∈ chain, stub.name ∉ seen
  cut : ∀ stub, scope.ancestor? name chain.length = some stub →
    stub.name ∈ seen ∨ stub.name ∈ chain.map (·.name)

section Chain

variable {seen : List String} {chain other : List ClassStub}

/-- Nothing is above a class that cannot be seen or has come before. -/
theorem IsChain.nil (h : ∀ stub, scope.lookup name = some stub → stub.name ∈ seen) :
    scope.IsChain seen name [] where
  ancestor _ hn := absurd hn (Nat.not_lt_zero _)
  nodup := .nil
  fresh := nofun
  cut stub hstub := .inl (h stub hstub)

/-- A class without a superclass is all of its chain. -/
theorem IsChain.top (h : scope.lookup name = some stub) (hfresh : stub.name ∉ seen)
    (hsuper : stub.superName = none) : scope.IsChain seen name [stub] where
  ancestor n hn := by
    obtain rfl : n = 0 := Nat.lt_one_iff.1 hn
    exact h
  nodup := List.nodup_singleton _
  fresh := by simpa using hfresh
  cut above habove := by
    rw [List.length_singleton, ancestor?_succ h, hsuper] at habove
    cases habove

/-- **A class in front of the chain of its superclass.** That chain ends where it comes back to a
class below it. -/
theorem IsChain.step {parent : String} (h : scope.lookup name = some stub)
    (hfresh : stub.name ∉ seen) (hsuper : stub.superName = some parent)
    (hparent : scope.IsChain (stub.name :: seen) parent chain) :
    scope.IsChain seen name (stub :: chain) where
  -- Every ancestor of the class is one of its superclass, a step nearer.
  ancestor n hn := by
    cases n with
    | zero => exact h
    | succ n =>
      rw [ancestor?_succ h, hsuper]
      exact hparent.ancestor n (Nat.lt_of_succ_lt_succ hn)
  nodup := by
    refine List.nodup_cons.2 ⟨fun hmem => ?_, hparent.nodup⟩
    obtain ⟨above, habove, hname⟩ := List.mem_map.1 hmem
    exact hparent.fresh above habove (hname ▸ List.mem_cons_self ..)
  fresh above habove := by
    rcases List.mem_cons.1 habove with rfl | habove
    · exact hfresh
    · exact fun hseen => hparent.fresh above habove (List.mem_cons_of_mem _ hseen)
  cut above habove := by
    rw [List.length_cons, ancestor?_succ h, hsuper] at habove
    rcases hparent.cut above habove with hseen | hmem
    · rcases List.mem_cons.1 hseen with hsame | hseen
      · exact .inr (hsame ▸ List.mem_cons_self ..)
      · exact .inl hseen
    · exact .inr (List.mem_cons_of_mem _ hmem)

/-- A chain is how every longer one begins. -/
theorem IsChain.take (h : scope.IsChain seen name chain) (h' : scope.IsChain seen name other)
    (hle : chain.length ≤ other.length) : other.take chain.length = chain := by
  refine List.ext_getElem? fun n => ?_
  by_cases hn : n < chain.length
  · rw [List.getElem?_take_of_lt hn, ← h.ancestor n hn, h'.ancestor n (by omega)]
  · rw [List.getElem?_eq_none (by simp; omega), List.getElem?_eq_none (by omega)]

/-- **A class has one chain of superclasses.** It follows that what the definition computes is the
chain, and that no bound cuts it off. -/
theorem IsChain.unique (h : scope.IsChain seen name chain) (h' : scope.IsChain seen name other) :
    chain = other := by
  wlog hle : chain.length ≤ other.length generalizing chain other
  · exact (this h' h (Nat.le_of_not_le hle)).symm
  -- Both chains follow the same superclasses, so the shorter one is a start of the longer.
  have htake := h.take h' hle
  rcases Nat.lt_or_eq_of_le hle with hlt | hlength
  · -- The class at which the one chain ends would be on the other one.
    have hrest : other = chain ++ other[chain.length] :: other.drop (chain.length + 1) := by
      rw [← List.drop_eq_getElem_cons hlt]
      conv_lhs => rw [← List.take_append_drop chain.length other, htake]
    have hnext := h'.ancestor chain.length hlt
    rw [List.getElem?_eq_getElem hlt] at hnext
    rcases h.cut _ hnext with hseen | hmem
    · exact absurd hseen (h'.fresh _ (List.getElem_mem hlt))
    · have hnodup := h'.nodup
      rw [hrest, List.map_append, List.nodup_append] at hnodup
      exact absurd rfl (hnodup.2.2 _ hmem _ (List.mem_cons_self ..))
  · rw [← htake, hlength, List.take_length]

end Chain

/-! ## The chain that is listed

The walk keeps the names that it has met. It stops at one of them, and otherwise goes up by one
class. -/

/-- A walk past the classes `done` lists the chain, if its steps are more than there are classes
left. -/
theorem isChain_chainFrom {fuel : Nat} {done : List ClassStub}
    (hnodup : (done.map (·.name)).Nodup)
    (hdone : ∀ stub ∈ done, ∃ child, scope.lookup child = some stub)
    (hfuel : scope.size < fuel + done.length) :
    scope.IsChain (done.map (·.name)) name (scope.chainFrom fuel (done.map (·.name)) name) := by
  -- On the steps that are left. With none left there would be more classes than there are.
  induction fuel generalizing done name with
  | zero =>
    have hle := length_le_size hnodup.of_map hdone
    omega
  | succ fuel ih =>
    unfold chainFrom
    split
    · next hnone =>
      refine .nil fun stub h => ?_
      rw [hnone] at h
      cases h
    · next stub hstub =>
      split
      · next hseen =>
        have hseen : stub.name ∈ done.map (·.name) := List.contains_iff_mem.1 hseen
        refine .nil fun found h => ?_
        rw [hstub] at h
        cases h
        exact hseen
      · next hunseen =>
        have hfresh : stub.name ∉ done.map (·.name) := fun h =>
          hunseen (List.contains_iff_mem.2 h)
        split
        · next hsuper => exact .top hstub hfresh hsuper
        · next parent hsuper =>
          refine .step hstub hfresh hsuper (@ih parent (stub :: done) ?_ ?_ ?_)
          · exact List.nodup_cons.2 ⟨hfresh, hnodup⟩
          · exact List.forall_mem_cons.2 ⟨⟨name, hstub⟩, hdone⟩
          · rw [List.length_cons]
            omega

/-- **The superclasses of a class are its chain.** -/
theorem isChain_superclasses (scope : Scope) (name : String) :
    scope.IsChain [] name (scope.superclasses name) :=
  @isChain_chainFrom scope name (scope.size + 1) [] .nil nofun (Nat.lt_succ_self _)

end ClassLoom.Scope
