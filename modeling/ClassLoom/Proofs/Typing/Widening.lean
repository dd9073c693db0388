import ClassLoom.Typing.Hierarchy

/-!
# Slots only widen

A slot that takes a value it did not take before gets another type, and it never gets back to
one that it has left. The measure is `SlotType.rank`: the unused slot is lowest, then
`java/lang/Object`, then classes by the length of their chain of superclasses, then those whose
chain is not known to the end, and `null` is highest.

Chains may be cyclic or infinite, and arrays or interfaces may stand on them. What carries the
proof is that a class which a hierarchy denies to be below another one has a chain that is known
to the end (`exists_chainLength`), and so has everything on it (`chainLength_of_reaches`).

* `Hierarchy.climb_onChain`: a climb ends at `java/lang/Object` or on the chain where it began;
* `SlotType.rank_widen`: a slot that has to widen gets a lower rank;
* `SlotType.widen_eq_self_iff`: a slot stays as it is exactly if the value is assignable.
-/

namespace ClassLoom.Typing

namespace Hierarchy

/-! ## Chains

A chain of superclasses is followed for a limited number of steps. If it ends within them, its
length is known, and everything on it has a shorter one. This length is what makes slots come to
rest. -/

/-- The number of superclasses of a class, if its chain is known to the end within so many
steps. -/
def chainLength (h : Hierarchy) : Nat → String → Option Nat
  | 0, _ => none
  | steps + 1, name =>
    if name = objectName then some 0
    else
      match h name with
      | none => none
      | some .interface => some 0
      | some (.subclass none) => some 0
      | some (.subclass (some parent)) => (h.chainLength steps parent).map (· + 1)

section Chain

variable {h : Hierarchy}

/-- A length that is found is below the number of steps. Each class on the chain takes a step. -/
theorem chainLength_lt {steps k : Nat} {name : String}
    (hk : h.chainLength steps name = some k) : k < steps := by
  induction steps generalizing name k with
  | zero => cases hk
  | succ steps ih =>
    unfold chainLength at hk
    -- The chain ends here, or it goes on in one step less.
    split at hk
    · cases hk
      omega
    · split at hk
      · cases hk
      · cases hk
        omega
      · cases hk
        omega
      · obtain ⟨j, hj, rfl⟩ := Option.map_eq_some_iff.1 hk
        have hlt := ih hj
        omega

/-- More steps find the same end of a chain. Where the end is found, no step is missing. -/
theorem chainLength_mono {steps more k : Nat} {name : String} (hle : steps ≤ more)
    (hk : h.chainLength steps name = some k) : h.chainLength more name = some k := by
  induction steps generalizing name k more with
  | zero => cases hk
  | succ steps ih =>
    -- More steps are at least one, so the first step is the same in both.
    obtain ⟨more, rfl⟩ : ∃ m, more = m + 1 := ⟨more - 1, by omega⟩
    unfold chainLength at hk ⊢
    split at hk
    · next hobject =>
      rw [if_pos hobject]
      exact hk
    · next hother =>
      rw [if_neg hother]
      split at hk
      · cases hk
      · exact hk
      · exact hk
      · obtain ⟨j, hj, rfl⟩ := Option.map_eq_some_iff.1 hk
        exact Option.map_eq_some_iff.2 ⟨j, ih (by omega) hj, rfl⟩

/-- A class that has no place for another one on its chain has a chain that is known to the
end. -/
theorem exists_chainLength {steps : Nat} {name target : String}
    (hno : h.reaches steps name target = false) : ∃ k, h.chainLength steps name = some k := by
  induction steps generalizing name with
  | zero => cases hno
  | succ steps ih =>
    unfold reaches at hno
    unfold chainLength
    split
    · exact ⟨0, rfl⟩
    · next hother =>
      rw [if_neg hother] at hno
      -- A class that is not known would have been reached, as anything can be above it.
      rcases hlineage : h name with _ | _ | _ | parent
      · simp only [hlineage] at hno
        cases hno
      · exact ⟨0, rfl⟩
      · exact ⟨0, rfl⟩
      · simp only [hlineage] at hno
        obtain ⟨j, hj⟩ := ih (Bool.or_eq_false_iff.1 hno).2
        exact ⟨j + 1, Option.map_eq_some_iff.2 ⟨j, hj, rfl⟩⟩

/-- The superclass has a shorter chain. -/
theorem chainLength_parent {steps k : Nat} {name parent : String} (hname : name ≠ objectName)
    (hparent : h name = some (.subclass (some parent))) (hk : h.chainLength steps name = some k) :
    ∃ j < k, h.chainLength steps parent = some j := by
  cases steps with
  | zero => cases hk
  | succ steps =>
    unfold chainLength at hk
    rw [if_neg hname, hparent] at hk
    obtain ⟨j, hj, rfl⟩ := Option.map_eq_some_iff.1 hk
    exact ⟨j, Nat.lt_succ_self j, chainLength_mono (Nat.le_succ steps) hj⟩

/-- Whether a name is on the chain of superclasses from another one on. The chain goes through
classes whose superclass is known, and ends at `java/lang/Object`. -/
inductive OnChain (h : Hierarchy) : String → String → Prop where
  | self (name : String) : OnChain h name name
  | above {name parent target : String} (hname : name ≠ objectName)
      (hparent : h name = some (.subclass (some parent))) (hrest : OnChain h parent target) :
      OnChain h name target

/-- What is above what is above a class is on its chain. -/
theorem OnChain.trans {a b c : String} (hab : OnChain h a b) (hbc : OnChain h b c) :
    OnChain h a c := by
  induction hab with
  | self => exact hbc
  | above hname hparent _ ih => exact .above hname hparent (ih hbc)

/-- Nothing is above the root. -/
theorem OnChain.eq_object {target : String} (hchain : OnChain h objectName target) :
    target = objectName := by
  cases hchain with
  | self => rfl
  | above hname _ _ => exact absurd rfl hname

/-- What is above a class on its chain has a shorter chain. Going up the chain therefore comes to an
end. -/
theorem OnChain.chainLength {name target : String} (hchain : OnChain h name target) :
    target = name ∨ ∀ k, h.chainLength chainLimit name = some k →
      ∃ j < k, h.chainLength chainLimit target = some j := by
  induction hchain with
  | self => exact .inl rfl
  | above hname hparent _ ih =>
    refine .inr fun k hk => ?_
    obtain ⟨j, hlt, hj⟩ := chainLength_parent hname hparent hk
    rcases ih with rfl | hshorter
    · exact ⟨j, hlt, hj⟩
    · obtain ⟨i, hlt', hi⟩ := hshorter j hj
      exact ⟨i, by omega, hi⟩

/-- A class reaches what is above it on its chain, in however many steps it is looked for: where
there are too few, it counts as reached. -/
theorem OnChain.reaches {name target : String} (hchain : OnChain h name target)
    (hne : name ≠ target) (steps : Nat) : h.reaches steps name target = true := by
  induction hchain generalizing steps with
  | self => exact absurd rfl hne
  | @above name parent target hname hparent _ ih =>
    cases steps with
    | zero => rfl
    | succ steps =>
      unfold Hierarchy.reaches
      rw [if_neg hname, hparent]
      by_cases hhere : parent = target
      · simp [hhere]
      · simp [ih hhere steps]

/-- What is on a chain that is known to the end has a shorter one, and that is known to the end
too. -/
theorem chainLength_of_reaches {steps limit k : Nat} {name target : String} (hle : steps ≤ limit)
    (hk : h.chainLength steps name = some k) (hreaches : h.reaches steps name target = true) :
    ∃ j < k, h.chainLength limit target = some j := by
  induction steps generalizing name k with
  | zero => cases hk
  | succ steps ih =>
    unfold reaches at hreaches
    unfold chainLength at hk
    split at hk
    · next hobject =>
      rw [if_pos hobject] at hreaches
      cases hreaches
    · next hother =>
      rw [if_neg hother] at hreaches
      split at hk
      · cases hk
      · next hinterface =>
        rw [hinterface] at hreaches
        cases hreaches
      · next hroot =>
        rw [hroot] at hreaches
        cases hreaches
      · next parent hparent =>
        rw [hparent] at hreaches
        obtain ⟨j, hj, rfl⟩ := Option.map_eq_some_iff.1 hk
        -- The target is the parent, or further up; it is nearer to the root in both cases.
        rcases Bool.or_eq_true_iff.1 hreaches with hhere | hfurther
        · obtain rfl := of_decide_eq_true hhere
          exact ⟨j, Nat.lt_succ_self j, chainLength_mono (by omega) hj⟩
        · obtain ⟨i, hlt, hi⟩ := ih (by omega) hj hfurther
          exact ⟨i, by omega, hi⟩

/-! ## Superclasses

Assignability between classes, and the climb to the nearest common superclass, in terms of chains.
Arrays and interfaces are left to their own rules. -/

theorem isSubclass_object (name : String) : h.isSubclass name objectName = true := by
  unfold isSubclass
  rw [if_pos]
  simp

/-- What a class is assignable to, if neither name is an array's. The four reasons are asked in this
order. -/
theorem isSubclass_class {name target : String} (hname : ArrayName.component? name = none)
    (htarget : ArrayName.component? target = none) :
    h.isSubclass name target = true ↔ name = target ∨ target = objectName
      ∨ h target = some .interface ∨ h.reaches chainLimit name target = true := by
  unfold isSubclass
  split
  · next hsame =>
    simp only [Bool.or_eq_true, decide_eq_true_eq] at hsame
    rcases hsame with hsame | hobject
    · exact ⟨fun _ => .inl hsame, fun _ => rfl⟩
    · exact ⟨fun _ => .inr (.inl hobject), fun _ => rfl⟩
  · next hother =>
    simp only [Bool.or_eq_true, decide_eq_true_eq, not_or] at hother
    split
    · next heq _ => simp [htarget] at heq
    · next heq _ => simp [htarget] at heq
    · next heq => simp [hname] at heq
    · simp only [Bool.or_eq_true, decide_eq_true_eq, hother.1, hother.2, false_or]

/-- A class can stand for what is on its chain. -/
theorem isSubclass_of_onChain {name target : String}
    (hname : ArrayName.component? name = none) (htarget : ArrayName.component? target = none)
    (hchain : OnChain h name target) : h.isSubclass name target = true := by
  rw [isSubclass_class hname htarget]
  by_cases hsame : name = target
  · exact .inl hsame
  · exact .inr (.inr (.inr (hchain.reaches hsame chainLimit)))

/-- A class is no array. Only arrays are assignable to arrays. -/
theorem not_isSubclass_array {name target : String} (hname : ArrayName.component? name = none)
    (htarget : ArrayName.isArray target = true) (hne : target ≠ objectName) :
    h.isSubclass name target = false := by
  obtain ⟨component, hcomponent⟩ := Option.isSome_iff_exists.1 htarget
  have hother : name ≠ target := by
    rintro rfl
    rw [hname] at hcomponent
    cases hcomponent
  unfold isSubclass
  rw [if_neg (by simp [hother, hne])]
  split
  · next heq => simp [hname] at heq
  · rfl
  · next heq _ => simp [hcomponent] at heq
  · next heq _ => simp [hcomponent] at heq

/-- What takes a class is no array, or the root. An array takes arrays only. -/
theorem component?_of_isSubclass {name target : String} (hname : ArrayName.component? name = none)
    (htarget : target ≠ objectName) (hyes : h.isSubclass name target = true) :
    ArrayName.component? target = none := by
  cases hcomponent : ArrayName.component? target with
  | none => rfl
  | some component =>
    have harray : ArrayName.isArray target = true := by
      unfold ArrayName.isArray
      rw [hcomponent]
      rfl
    rw [not_isSubclass_array hname harray htarget] at hyes
    cases hyes

/-- Where climbing ends: at `java/lang/Object`, or on the chain at something that `actual` is
below. -/
theorem climb_onChain (steps : Nat) (current actual : String) :
    h.climb steps current actual = objectName
      ∨ (h.isSubclass actual (h.climb steps current actual) = true
        ∧ OnChain h current (h.climb steps current actual)) := by
  induction steps generalizing current with
  | zero => exact .inl rfl
  | succ steps ih =>
    unfold climb
    split
    · next hbelow => exact .inr ⟨hbelow, .self current⟩
    · next hother =>
      -- The climb goes on to the parent, since the root would have been good enough.
      have hne : current ≠ objectName := by
        rintro rfl
        exact hother (isSubclass_object actual)
      split
      · next parent hparent =>
        rcases ih parent with hobject | ⟨hbelow, hchain⟩
        · exact .inl hobject
        · exact .inr ⟨hbelow, .above hne hparent hchain⟩
      · exact .inl rfl

end Chain
end Hierarchy

/-! ## Ranks

Each type of a slot has a rank, which falls when the slot is widened. Among references, those to
classes whose chain is not known to the end have the highest one. -/

namespace Hierarchy

variable {h : Hierarchy}

/-- How often a slot for references to a class can still widen, at most. -/
def rank (h : Hierarchy) (name : String) : Nat :=
  if name = objectName then 1
  else
    match h.chainLength chainLimit name with
    | some k => k + 2
    | none => chainLimit + 2

theorem rank_object : h.rank objectName = 1 := by
  unfold rank
  rw [if_pos rfl]

theorem rank_known {name : String} {k : Nat} (hname : name ≠ objectName)
    (hk : h.chainLength chainLimit name = some k) : h.rank name = k + 2 := by
  unfold rank
  rw [if_neg hname, hk]

/-- A class whose chain is not known ranks as if it were the longest. -/
theorem rank_unknown {name : String} (hname : name ≠ objectName)
    (hno : h.chainLength chainLimit name = none) : h.rank name = chainLimit + 2 := by
  unfold rank
  rw [if_neg hname, hno]

/-- So all ranks are within the limit for chains. The root ranks lowest, and a class whose chain is
not known ranks highest. -/
theorem rank_bounds (name : String) : 1 ≤ h.rank name ∧ h.rank name ≤ chainLimit + 2 := by
  by_cases hname : name = objectName
  · rw [hname, rank_object]
    omega
  cases hk : h.chainLength chainLimit name with
  | some k =>
    have hlt := chainLength_lt hk
    rw [rank_known hname hk]
    omega
  | none =>
    rw [rank_unknown hname hk]
    omega

/-- No other class ranks as low as the root. -/
theorem two_le_rank {name : String} (hname : name ≠ objectName) : 2 ≤ h.rank name := by
  cases hk : h.chainLength chainLimit name with
  | some k =>
    rw [rank_known hname hk]
    omega
  | none =>
    rw [rank_unknown hname hk]
    omega

/-- What takes a class has a chain that is known to the end, if another class is known not to
take it. -/
theorem exists_chainLength_of_isSubclass {actual declared target : String}
    (hactual : ArrayName.component? actual = none) (hdeclared : ArrayName.component? declared = none)
    (htarget : target ≠ objectName) (hno : h.isSubclass actual declared = false)
    (hyes : h.isSubclass actual target = true) :
    ∃ k, h.chainLength chainLimit target = some k := by
  have hreaches : h.reaches chainLimit actual declared = false := by
    rw [← Bool.not_eq_true] at hno ⊢
    intro hreaches
    exact hno ((isSubclass_class hactual hdeclared).2 (.inr (.inr (.inr hreaches))))
  obtain ⟨k, hk⟩ := exists_chainLength hreaches
  have hplain := component?_of_isSubclass hactual htarget hyes
  -- Four ways to be below the target: it is the class itself, the root, an interface, or on the
  -- chain of superclasses.
  rcases (isSubclass_class hactual hplain).1 hyes with rfl | hobject | hinterface | hon
  · exact ⟨k, hk⟩
  · exact absurd hobject htarget
  · refine ⟨0, ?_⟩
    show h.chainLength (63 + 1) target = some 0
    unfold chainLength
    rw [if_neg htarget, hinterface]
  · obtain ⟨j, _, hj⟩ := chainLength_of_reaches (Nat.le_refl _) hk hon
    exact ⟨j, hj⟩

/-- The nearest common superclass ranks lower than a class that does not take the other one. It is
on the chain of that class, and not the class itself. -/
theorem rank_commonSuperclass {declared actual : String}
    (hno : h.isSubclass actual declared = false) :
    h.rank (h.commonSuperclass declared actual) < h.rank declared := by
  have hdeclared : declared ≠ objectName := by
    rintro rfl
    rw [isSubclass_object] at hno
    cases hno
  have hlow := two_le_rank (h := h) hdeclared
  unfold commonSuperclass
  split
  · rw [rank_object]
    omega
  · next hplain =>
    simp only [Bool.or_eq_true, not_or, Bool.not_eq_true, ArrayName.isArray,
      Option.isSome_eq_false_iff, Option.isNone_iff_eq_none] at hplain
    obtain ⟨hplainDeclared, hplainActual⟩ := hplain
    have hclimb := climb_onChain (h := h) chainLimit declared actual
    generalize h.climb chainLimit declared actual = c at hclimb ⊢
    by_cases hobject : c = objectName
    · rw [hobject, rank_object]
      omega
    obtain habsurd | ⟨hbelow, hchain⟩ := hclimb
    · exact absurd habsurd hobject
    obtain rfl | hshorter := hchain.chainLength
    · rw [hbelow] at hno
      cases hno
    obtain ⟨j, hj⟩ :=
      exists_chainLength_of_isSubclass hplainActual hplainDeclared hobject hno hbelow
    -- The rank of the result is its chain's length, below that of a known chain and of any unknown
    -- one.
    rw [rank_known hobject hj]
    cases hk : h.chainLength chainLimit declared with
    | some k =>
      obtain ⟨i, hlt, hi⟩ := hshorter k hk
      rw [hj, Option.some.injEq] at hi
      rw [rank_known hdeclared hk]
      omega
    | none =>
      have hlt := chainLength_lt hj
      rw [rank_unknown hdeclared hk]
      omega

end Hierarchy

namespace SlotType

variable {h : Hierarchy}

/-- How often a slot of a type can still widen, at most. -/
def rank (h : Hierarchy) : SlotType → Nat
  | top => 0
  | null => chainLimit + 3
  | reference name => h.rank name
  | _ => 1

/-- No type ranks higher than this. -/
theorem rank_le (t : SlotType) : rank h t ≤ chainLimit + 3 := by
  cases t with
  | reference name =>
    have hle := (Hierarchy.rank_bounds (h := h) name).2
    exact Nat.le_succ_of_le hle
  | null => exact Nat.le_refl _
  | _ => simp [rank]

/-- **A slot that has to widen gets a lower rank**, and never a wide type. It goes out of use, or
takes something that is above it on its chain. -/
theorem rank_widen {slot value : SlotType} (hno : isAssignable h value slot = false) :
    rank h (widen h slot value) < rank h slot ∧ (widen h slot value).isWide = false := by
  unfold widen
  rw [hno, if_neg Bool.false_ne_true]
  -- Only references, `null` among them, can widen to anything but an unused slot.
  cases slot with
  | top =>
    unfold isAssignable at hno
    cases hno
  | reference declared =>
    have hlow := (Hierarchy.rank_bounds (h := h) declared).1
    cases value with
    | reference actual => exact ⟨Hierarchy.rank_commonSuperclass hno, rfl⟩
    | _ => exact ⟨hlow, rfl⟩
  | null =>
    cases value with
    | reference name => exact ⟨Nat.lt_succ_of_le (Hierarchy.rank_bounds (h := h) name).2, rfl⟩
    | _ => exact ⟨Nat.succ_pos _, rfl⟩
  | _ => exact ⟨Nat.one_pos, rfl⟩

/-- **A slot stays as it is exactly if it takes the value already.** So a pass that changes nothing
has found that every slot takes what flows into it. -/
theorem widen_eq_self_iff {slot value : SlotType} :
    widen h slot value = slot ↔ isAssignable h value slot = true := by
  constructor
  · intro hsame
    cases hno : isAssignable h value slot with
    | true => rfl
    | false =>
      have hlt := (rank_widen hno).1
      rw [hsame] at hlt
      omega
  · intro hyes
    unfold widen
    rw [if_pos hyes]

end SlotType
end ClassLoom.Typing
