import ClassLoom.Proofs.Typing.Widening
import Mathlib.Order.Lattice

/-!
# Common superclasses

Where chains of superclasses are known up to `java/lang/Object`, nothing has to be trusted: a
class can stand for what is on its chain and for nothing else. Such classes are a semilattice, in
which a class is below all that is on its chain, and the nearest common superclass of two of them
is their join. So it does not matter on which of two chains the search for it starts.

Chains count as known if they end within `chainLimit` steps. What carries the proofs is the
number of steps from a class to the root (`Hierarchy.RootedIn`): the walks up a chain are
inductions on it, and a walk that is allowed more steps is never cut off.

* `Hierarchy.Rooted.isSubclass_iff`: what a class can stand for;
* `Hierarchy.isLowestCommon_climb`: where the search for a common superclass ends;
* `Hierarchy.commonSuperclass_isLowestCommon`: the nearest common superclass, and its laws.
-/

namespace ClassLoom.Typing.Hierarchy

variable {h : Hierarchy}

/-! ## Chains up to the root

Walks up a chain are bounded, and a chain that is not known up to the root counts as one that could
lead anywhere. For classes whose chain is known and within the bound, the walks find what is
there. -/

/-- Whether the chain of superclasses from a name on comes to `java/lang/Object` after so many
steps. What is below the root is known to be a class and is no array; about `java/lang/Object`
itself nothing has to be known. -/
inductive RootedIn (h : Hierarchy) : Nat → String → Prop where
  | object : RootedIn h 0 objectName
  | under {steps : Nat} {name parent : String} (hname : name ≠ objectName)
      (hplain : ArrayName.component? name = none)
      (hparent : h name = some (.subclass (some parent))) (hrest : RootedIn h steps parent) :
      RootedIn h (steps + 1) name

/-- Whether the chain of superclasses from a name on is known up to `java/lang/Object`, which it
comes to before chains count as unknown. -/
def Rooted (h : Hierarchy) (name : String) : Prop := ∃ steps < chainLimit, RootedIn h steps name

namespace RootedIn

variable {steps : Nat} {name target : String}

theorem component? (hroot : RootedIn h steps name) : ArrayName.component? name = none := by
  cases hroot with
  | object => decide
  | under _ hplain _ _ => exact hplain

/-- What is below the root is no interface. -/
theorem ne_interface (hroot : RootedIn h steps name) (hname : name ≠ objectName) :
    h name ≠ some .interface := by
  cases hroot with
  | object => exact absurd rfl hname
  | under _ _ hparent _ =>
    rw [hparent]
    simp

theorem onChain_object (hroot : RootedIn h steps name) : OnChain h name objectName := by
  induction hroot with
  | object => exact .self objectName
  | under hname _ hparent _ ih => exact .above hname hparent ih

/-- What is on a chain up to the root is as near to the root, or nearer. The rest of a chain up to
the root is one, too. -/
theorem of_onChain (hroot : RootedIn h steps name) (hchain : OnChain h name target) :
    ∃ fewer ≤ steps, RootedIn h fewer target := by
  induction hroot with
  | object =>
    obtain rfl := hchain.eq_object
    exact ⟨0, Nat.le_refl 0, .object⟩
  | @under steps name parent hname hplain hparent hrest ih =>
    -- What is on the chain is the class itself, or on the chain of its superclass.
    cases hchain with
    | self => exact ⟨steps + 1, Nat.le_refl _, .under hname hplain hparent hrest⟩
    | above _ hparent' hchain =>
      rw [hparent] at hparent'
      cases hparent'
      obtain ⟨fewer, hle, htarget⟩ := ih hchain
      exact ⟨fewer, by omega, htarget⟩

/-- The steps to the root are the length of the chain, for every walk that is allowed more. -/
theorem chainLength_eq (hroot : RootedIn h steps name) {limit : Nat} (hlt : steps < limit) :
    h.chainLength limit name = some steps := by
  induction hroot generalizing limit with
  | object =>
    obtain ⟨limit, rfl⟩ := Nat.exists_eq_add_one.2 hlt
    exact if_pos rfl
  | under hname _ hparent _ ih =>
    obtain ⟨limit, rfl⟩ := Nat.exists_eq_add_one.2 (Nat.zero_lt_of_lt hlt)
    unfold chainLength
    rw [if_neg hname, hparent]
    exact Option.map_eq_some_iff.2 ⟨_, ih (by omega), rfl⟩

/-- A walk that comes to the root has found what is on the chain, and nothing else. Such a walk is
not cut off. -/
theorem onChain_of_reaches (hroot : RootedIn h steps name) {limit : Nat} (hlt : steps < limit)
    (hreaches : h.reaches limit name target = true) : OnChain h name target := by
  induction hroot generalizing limit with
  | object =>
    obtain ⟨limit, rfl⟩ := Nat.exists_eq_add_one.2 hlt
    unfold reaches at hreaches
    rw [if_pos rfl] at hreaches
    cases hreaches
  | @under steps name parent hname _ hparent _ ih =>
    obtain ⟨limit, rfl⟩ := Nat.exists_eq_add_one.2 (Nat.zero_lt_of_lt hlt)
    unfold reaches at hreaches
    rw [if_neg hname, hparent] at hreaches
    rcases Bool.or_eq_true_iff.1 hreaches with hhere | hfurther
    · obtain rfl := of_decide_eq_true hhere
      exact .above hname hparent (.self parent)
    · exact .above hname hparent (ih (by omega) hfurther)

/-- A walk that is cut off below the root has found everything. What is farther up than the limit
counts as found. -/
theorem reaches_of_le (hroot : RootedIn h steps name) {limit : Nat} (hle : limit ≤ steps) :
    h.reaches limit name target = true := by
  induction hroot generalizing limit with
  | object =>
    obtain rfl : limit = 0 := by omega
    rfl
  | under hname _ hparent _ ih =>
    cases limit with
    | zero => rfl
    | succ limit =>
      unfold reaches
      rw [if_neg hname, hparent]
      exact Bool.or_eq_true_iff.2 (.inr (ih (by omega)))

end RootedIn

namespace Rooted

variable {a b : String}

theorem component? (ha : Rooted h a) : ArrayName.component? a = none := by
  obtain ⟨_, _, hroot⟩ := ha
  exact hroot.component?

theorem of_onChain (ha : Rooted h a) (hchain : OnChain h a b) : Rooted h b := by
  obtain ⟨steps, hlt, hroot⟩ := ha
  obtain ⟨fewer, hle, hb⟩ := hroot.of_onChain hchain
  exact ⟨fewer, by omega, hb⟩

/-- Two classes that are on each other's chain are the same. A chain that came back to a class would
not come to the root. -/
theorem eq_of_onChain (ha : Rooted h a) (hab : OnChain h a b) (hba : OnChain h b a) : a = b := by
  obtain ⟨steps, hlt, hroot⟩ := ha
  rcases hab.chainLength with rfl | hshorter
  · rfl
  · rcases hba.chainLength with rfl | hshorter'
    · rfl
    · -- The chain from `a` would be shorter than itself.
      have hk := hroot.chainLength_eq hlt
      obtain ⟨j, hlt, hj⟩ := hshorter _ hk
      obtain ⟨k, hlt', hk'⟩ := hshorter' _ hj
      rw [hk, Option.some.injEq] at hk'
      omega

/-- **A class can stand for what is on its chain**, itself included, and for nothing else. The other
reasons, arrays and interfaces, are none for such classes. -/
theorem isSubclass_iff (ha : Rooted h a) (hb : Rooted h b) :
    h.isSubclass a b = true ↔ OnChain h a b := by
  constructor
  · intro hyes
    obtain ⟨steps, hlt, hroot⟩ := ha
    obtain ⟨_, _, hroot'⟩ := hb
    by_cases hobject : b = objectName
    · rw [hobject]
      exact hroot.onChain_object
    · rcases (isSubclass_class hroot.component? hroot'.component?).1 hyes with
        rfl | habsurd | habsurd | hreaches
      · exact .self a
      · exact absurd habsurd hobject
      · exact absurd habsurd (hroot'.ne_interface hobject)
      · exact hroot.onChain_of_reaches hlt hreaches
  · exact isSubclass_of_onChain ha.component? hb.component?

end Rooted

/-- A class whose chain goes on beyond the limit can stand for every other one. -/
theorem isSubclass_of_long {steps : Nat} {name target : String} (hroot : RootedIn h steps name)
    (hlong : chainLimit ≤ steps) (htarget : ArrayName.component? target = none) :
    h.isSubclass name target = true :=
  (isSubclass_class hroot.component? htarget).2 (.inr (.inr (.inr (hroot.reaches_of_le hlong))))

/-! ## Common superclasses

Two chains that both end at the root have a lowest class in common. The climb goes up from one class
until it stands on the other chain. -/

/-- Whether `c` is the lowest class on both of two chains: what else is on both of them is above
`c`. -/
structure IsLowestCommon (h : Hierarchy) (a b c : String) : Prop where
  left : OnChain h a c
  right : OnChain h b c
  lowest : ∀ d, OnChain h a d → OnChain h b d → OnChain h c d

/-- **The climb from one class ends at the lowest class on both chains.** It stops at the first
class that the other one can stand for, and all below it have been passed. -/
theorem isLowestCommon_climb {steps limit : Nat} {current actual : String}
    (hroot : RootedIn h steps current) (hlt : steps < limit) (hlimit : limit ≤ chainLimit)
    (hactual : Rooted h actual) :
    IsLowestCommon h current actual (h.climb limit current actual) := by
  -- On the steps up to the root, where the climb ends at the latest.
  induction hroot generalizing limit with
  | object =>
    obtain ⟨limit, rfl⟩ := Nat.exists_eq_add_one.2 hlt
    unfold climb
    rw [if_pos (isSubclass_object actual)]
    obtain ⟨_, _, hroot⟩ := hactual
    exact ⟨.self objectName, hroot.onChain_object, fun _ hd _ => hd⟩
  | @under steps name parent hname hplain hparent hrest ih =>
    obtain ⟨limit, rfl⟩ := Nat.exists_eq_add_one.2 (Nat.zero_lt_of_lt hlt)
    have hrooted : Rooted h name := ⟨steps + 1, by omega, .under hname hplain hparent hrest⟩
    unfold climb
    split
    · next hbelow =>
      exact ⟨.self name, (hactual.isSubclass_iff hrooted).1 hbelow, fun _ hd _ => hd⟩
    · next hother =>
      rw [hparent]
      have hclimb : IsLowestCommon h parent actual (h.climb limit parent actual) :=
        ih (by omega) (by omega)
      refine ⟨.above hname hparent hclimb.left, hclimb.right, fun d hd hd' => ?_⟩
      -- What is on both chains is not the class that the climb has just left.
      cases hd with
      | self => exact absurd ((hactual.isSubclass_iff hrooted).2 hd') hother
      | above _ hparent' hd =>
        rw [hparent] at hparent'
        cases hparent'
        exact hclimb.lowest d hd hd'

/-- What the analysis takes for the common superclass of two classes is the lowest one on both
chains. -/
theorem isLowestCommon_commonSuperclass {a b : String} (ha : Rooted h a) (hb : Rooted h b) :
    IsLowestCommon h a b (h.commonSuperclass a b) := by
  have hplain : (ArrayName.isArray a || ArrayName.isArray b) = false := by
    simp only [ArrayName.isArray, ha.component?, hb.component?]
    rfl
  obtain ⟨steps, hlt, hroot⟩ := ha
  unfold commonSuperclass
  rw [hplain, if_neg Bool.false_ne_true]
  exact isLowestCommon_climb hroot hlt (Nat.le_refl _) hb

/-- The classes whose chain of superclasses is known up to `java/lang/Object`. -/
def RootedClass (h : Hierarchy) : Type := { name : String // Rooted h name }

/-- A class is below all that is on its chain. -/
instance : PartialOrder (RootedClass h) where
  le a b := OnChain h a.1 b.1
  le_refl a := .self a.1
  le_trans _ _ _ := OnChain.trans
  le_antisymm a _ hab hba := Subtype.ext (a.2.eq_of_onChain hab hba)

/-- The join of two classes is their nearest common superclass. -/
instance : SemilatticeSup (RootedClass h) where
  sup a b := ⟨h.commonSuperclass a.1 b.1,
    a.2.of_onChain (isLowestCommon_commonSuperclass a.2 b.2).left⟩
  le_sup_left a b := (isLowestCommon_commonSuperclass a.2 b.2).left
  le_sup_right a b := (isLowestCommon_commonSuperclass a.2 b.2).right
  sup_le a b c := (isLowestCommon_commonSuperclass a.2 b.2).lowest c.1

/-- **The nearest common superclass is the lowest class on both chains.** Among classes whose
chains are known up to `java/lang/Object`, a class can stand for exactly what is on its chain; the
nearest common superclass of two of them is one of them again, and takes the two in any order, any
number of them in any grouping, and a class twice for once. The limit is sharp: a class whose
chain is longer can stand for every other one. -/
theorem commonSuperclass_isLowestCommon {a b c : String} (ha : Rooted h a) (hb : Rooted h b)
    (hc : Rooted h c) :
    (h.isSubclass a b = true ↔ OnChain h a b)
      ∧ IsLowestCommon h a b (h.commonSuperclass a b)
      ∧ Rooted h (h.commonSuperclass a b)
      ∧ h.commonSuperclass a b = h.commonSuperclass b a
      ∧ h.commonSuperclass (h.commonSuperclass a b) c
          = h.commonSuperclass a (h.commonSuperclass b c)
      ∧ h.commonSuperclass a a = a
      ∧ ∀ steps name, RootedIn h steps name → chainLimit ≤ steps → h.isSubclass name b = true := by
  let x : RootedClass h := ⟨a, ha⟩
  let y : RootedClass h := ⟨b, hb⟩
  let z : RootedClass h := ⟨c, hc⟩
  refine ⟨ha.isSubclass_iff hb, isLowestCommon_commonSuperclass ha hb, (x ⊔ y).2, ?_, ?_, ?_, ?_⟩
  · exact congrArg Subtype.val (sup_comm x y)
  · exact congrArg Subtype.val (sup_assoc x y z)
  · exact congrArg Subtype.val (sup_idem x)
  · intro steps name hroot hlong
    exact isSubclass_of_long hroot hlong hb.component?

/-- `A` and `C` both extend `B`, and `java/lang/Object` is not known at all. Their nearest common
superclass is `B`, from either side. -/
theorem commonSuperclass_isLowestCommon_siblings :
    let h : Hierarchy := fun name =>
      if name = "A" ∨ name = "C" then some (.subclass (some "B"))
      else if name = "B" then some (.subclass (some objectName)) else none
    Rooted h "A" ∧ Rooted h "B" ∧ Rooted h "C" ∧ h.isSubclass "A" "C" = false
      ∧ IsLowestCommon h "A" "C" "B" ∧ h.commonSuperclass "C" "A" = "B" := by
  intro h
  have hb : RootedIn h 1 "B" := .under (by decide) (by decide) (by decide) .object
  have ha : Rooted h "A" := ⟨2, by decide, .under (by decide) (by decide) (by decide) hb⟩
  have hc : Rooted h "C" := ⟨2, by decide, .under (by decide) (by decide) (by decide) hb⟩
  have hb : Rooted h "B" := ⟨1, by decide, hb⟩
  obtain ⟨_, hlowest, _, hcomm, _⟩ := commonSuperclass_isLowestCommon ha hc hb
  have hjoin : h.commonSuperclass "A" "C" = "B" := by
    decide +kernel
  rw [hjoin] at hlowest hcomm
  exact ⟨ha, hb, hc, by decide +kernel, hlowest, hcomm.symm⟩

end ClassLoom.Typing.Hierarchy
