import ClassLoom.Proofs.Scope.InterfaceClosure

/-!
# The class that declares a method

A method is looked for on the chain of superclasses and, where none of them declares it, on the
interfaces that can be seen, each time in the order of the list (`DeclaredBy`).

* `declaredBy_iff`: the class that a look-up gives;
* `lookups_follow_inheritance`: superclasses, interfaces and declaring classes in any scope, with
  cycles and with classes that cannot be seen.
-/

namespace ClassLoom

/-- Whether a class declares a method. -/
def ClassStub.Declares (s : ClassStub) (name descriptor : String) : Prop :=
  ∃ m ∈ s.methods, m.name = name ∧ m.descriptor = descriptor

/-- A look-up in a class finds something if the class declares the method. -/
theorem ClassStub.isSome_method?_iff {s : ClassStub} {name descriptor : String} :
    (s.method? name descriptor).isSome ↔ s.Declares name descriptor := by
  unfold method? Declares
  rw [List.find?_isSome]
  simp only [Bool.and_eq_true, decide_eq_true_eq]

theorem ClassStub.method?_eq_none_iff {s : ClassStub} {name descriptor : String} :
    s.method? name descriptor = none ↔ ¬ s.Declares name descriptor := by
  rw [← isSome_method?_iff, Option.not_isSome_iff_eq_none]

namespace Scope

variable {scope : Scope} {owner method descriptor declarer : String}

/-- The class that declares a method of `owner`: the first superclass that does, or else the first
interface that can be seen and does, or else `owner`. -/
inductive DeclaredBy (scope : Scope) (owner method descriptor : String) : String → Prop where
  | superclass {before behind : List ClassStub} {stub : ClassStub}
    (hsplit : scope.superclasses owner = before ++ stub :: behind)
    (hbefore : ∀ other ∈ before, ¬ other.Declares method descriptor)
    (hstub : stub.Declares method descriptor) : DeclaredBy scope owner method descriptor stub.name
  | interface {before behind : List String} {name : String} {stub : ClassStub}
    (hsuper : ∀ other ∈ scope.superclasses owner, ¬ other.Declares method descriptor)
    (hsplit : scope.interfaceClosure owner = before ++ name :: behind)
    (hbefore : ∀ earlier ∈ before, ∀ other, scope.lookup earlier = some other →
      ¬ other.Declares method descriptor)
    (hlookup : scope.lookup name = some stub) (hstub : stub.Declares method descriptor) :
    DeclaredBy scope owner method descriptor stub.name
  | unknown (hsuper : ∀ other ∈ scope.superclasses owner, ¬ other.Declares method descriptor)
    (hinterface : ∀ name ∈ scope.interfaceClosure owner, ∀ other,
      scope.lookup name = some other → ¬ other.Declares method descriptor) :
    DeclaredBy scope owner method descriptor owner

/-- A superclass with a method is found with it. -/
theorem findMethod_eq_some {before behind : List ClassStub} {stub : ClassStub} {m : MethodStub}
    (hsplit : scope.superclasses owner = before ++ stub :: behind)
    (hbefore : ∀ other ∈ before, ¬ other.Declares method descriptor)
    (hm : stub.method? method descriptor = some m) :
    scope.findMethod owner method descriptor = some (stub, m) := by
  refine List.findSome?_eq_some_iff.2 ⟨before, stub, behind, hsplit, by rw [hm]; rfl, ?_⟩
  intro other hother
  rw [ClassStub.method?_eq_none_iff.2 (hbefore other hother)]
  rfl

/-- No superclass is found if none declares the method. -/
theorem findMethod_eq_none_iff : scope.findMethod owner method descriptor = none
    ↔ ∀ other ∈ scope.superclasses owner, ¬ other.Declares method descriptor := by
  unfold findMethod
  rw [List.findSome?_eq_none_iff]
  simp only [Option.map_eq_none_iff, ClassStub.method?_eq_none_iff]

/-- An interface that can be seen and declares a method. -/
def declaring? (scope : Scope) (method descriptor name : String) : Option ClassStub :=
  (scope.lookup name).filter fun stub => (stub.method? method descriptor).isSome

/-- An interface is found with a method if it can be seen and declares it. -/
theorem declaring?_eq_some_iff {name : String} {stub : ClassStub} :
    scope.declaring? method descriptor name = some stub
      ↔ scope.lookup name = some stub ∧ stub.Declares method descriptor := by
  unfold declaring?
  rw [Option.filter_eq_some_iff, ClassStub.isSome_method?_iff]

theorem declaring?_eq_none_iff {name : String} : scope.declaring? method descriptor name = none
    ↔ ∀ other, scope.lookup name = some other → ¬ other.Declares method descriptor := by
  unfold declaring?
  simp only [Option.filter_eq_none_iff, ClassStub.isSome_method?_iff]

/-- Where no superclass declares a method, the interfaces decide. -/
theorem declaringClass_of_findMethod (h : scope.findMethod owner method descriptor = none) :
    scope.declaringClass owner method descriptor = (((scope.interfaceClosure owner).findSome?
      (scope.declaring? method descriptor)).map (·.name)).getD owner := by
  unfold declaringClass declaring?
  rw [h]
  dsimp only
  split
  · next hfound => rw [hfound]; rfl
  · next hnone => rw [hnone]; rfl

/-- **A look-up gives the class that declares the method.** In each case it passes over the same
candidates as the rule. -/
theorem DeclaredBy.eq (h : scope.DeclaredBy owner method descriptor declarer) :
    declarer = scope.declaringClass owner method descriptor := by
  cases h with
  | superclass hsplit hbefore hstub =>
    obtain ⟨m, hm⟩ := Option.isSome_iff_exists.1 (ClassStub.isSome_method?_iff.2 hstub)
    unfold declaringClass
    rw [findMethod_eq_some hsplit hbefore hm]
  | interface hsuper hsplit hbefore hlookup hstub =>
    rw [declaringClass_of_findMethod (findMethod_eq_none_iff.2 hsuper),
      List.findSome?_eq_some_iff.2 ⟨_, _, _, hsplit, declaring?_eq_some_iff.2 ⟨hlookup, hstub⟩,
        fun earlier hearlier => declaring?_eq_none_iff.2 (hbefore earlier hearlier)⟩]
    rfl
  | unknown hsuper hinterface =>
    rw [declaringClass_of_findMethod (findMethod_eq_none_iff.2 hsuper),
      List.findSome?_eq_none_iff.2 fun name hname =>
        declaring?_eq_none_iff.2 (hinterface name hname)]
    rfl

/-- **Every look-up gives a class that declares the method**, or the owner. The owner is given where
no class or interface is known to declare it. -/
theorem declaredBy_declaringClass (scope : Scope) (owner method descriptor : String) :
    scope.DeclaredBy owner method descriptor
      (scope.declaringClass owner method descriptor) := by
  cases hfound : scope.findMethod owner method descriptor with
  | some found =>
    -- The first superclass with the method splits the chain.
    obtain ⟨before, stub, behind, hsplit, hstub, hbefore⟩ := List.findSome?_eq_some_iff.1 hfound
    obtain ⟨m, hm, rfl⟩ := Option.map_eq_some_iff.1 hstub
    unfold declaringClass
    rw [hfound]
    refine .superclass hsplit (fun other hother => ?_)
      (ClassStub.isSome_method?_iff.1 (Option.isSome_of_eq_some hm))
    exact ClassStub.method?_eq_none_iff.1 (Option.map_eq_none_iff.1 (hbefore other hother))
  | none =>
    have hsuper := findMethod_eq_none_iff.1 hfound
    rw [declaringClass_of_findMethod hfound]
    cases hinherited : (scope.interfaceClosure owner).findSome?
        (scope.declaring? method descriptor) with
    | some stub =>
      -- The first interface with the method splits the closure in the same way.
      obtain ⟨before, name, behind, hsplit, hname, hbefore⟩ :=
        List.findSome?_eq_some_iff.1 hinherited
      obtain ⟨hlookup, hstub⟩ := declaring?_eq_some_iff.1 hname
      exact .interface hsuper hsplit
        (fun earlier hearlier => declaring?_eq_none_iff.1 (hbefore earlier hearlier)) hlookup hstub
    | none =>
      exact .unknown hsuper fun name hname =>
        declaring?_eq_none_iff.1 (List.findSome?_eq_none_iff.1 hinherited name hname)

/-- The class that declares a method is the one that a look-up gives, and no other. -/
theorem declaredBy_iff : scope.DeclaredBy owner method descriptor declarer
    ↔ declarer = scope.declaringClass owner method descriptor := by
  constructor
  · exact DeclaredBy.eq
  · rintro rfl
    exact declaredBy_declaringClass scope owner method descriptor

/-- **Look-ups follow inheritance**, whatever can be seen. The superclasses of a class are its
chain, up to what cannot be seen or comes again. Its interfaces are what a queue comes to list in
the end: the least set with the interfaces of the chain and with all that its members extend, each
once, and none before one that takes fewer steps. A method belongs to the first of the
superclasses, and then of the interfaces, that declares it. -/
theorem lookups_follow_inheritance (scope : Scope) (className : String) :
    (∀ chain, scope.IsChain [] className chain ↔ chain = scope.superclasses className)
      ∧ (∃ turns, (Walk.next scope)^[turns] ⟨scope.listedInterfaces className, []⟩
        = ⟨[], scope.interfaceClosure className⟩)
      ∧ (∀ name, name ∈ scope.interfaceClosure className ↔ ∀ names : Set String,
        (∀ listed ∈ scope.listedInterfaces className, listed ∈ names)
        → (∀ child ∈ names, ∀ extended ∈ scope.interfacesOf child, extended ∈ names)
        → name ∈ names)
      ∧ (scope.interfaceClosure className).Nodup
      ∧ (scope.interfaceClosure className).Pairwise
        (scope.NoFarther (scope.listedInterfaces className))
      ∧ ∀ method descriptor declarer, scope.DeclaredBy className method descriptor declarer
        ↔ declarer = scope.declaringClass className method descriptor := by
  have hchain := isChain_superclasses scope className
  refine ⟨fun chain => ⟨fun h => h.unique hchain, fun h => h ▸ hchain⟩,
    exists_turns_interfaceClosure scope className, fun _ => mem_interfaceClosure_iff,
    nodup_interfaceClosure scope className, pairwise_interfaceClosure scope className,
    fun _ _ _ => declaredBy_iff⟩

end Scope
end ClassLoom
