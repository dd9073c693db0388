import ClassLoom.Proofs.Weave.WovenStub

/-!
# What can be seen of a woven batch

Before and after weaving the same names can be seen, on the same chains of superclasses, and under
each name stubs of which one keeps the signatures of the other (`Scope.Keeps`). Which interfaces a
class has differs only where a lambda carrier among its superclasses or interfaces has other ones
than before.

* `ClassIndex.Relates.insertAll`: indices of classes that correspond;
* `keeps_weave`: the scopes of a batch before and after weaving;
* `interfaceClosure_eq_or_changed`: the interfaces of a class in both.
-/

namespace ClassLoom

/-! ## Indices of classes that correspond

Weaving gives a batch with other classes in the same places. Their indices then have stubs under the
same names, and whatever relates the stubs in the batch relates those that are found. -/

namespace ClassIndex

/-- Adding a class that is not there makes an index larger by one. -/
theorem size_insert (index : ClassIndex) (stub : ClassStub) : (index.insert stub).size
    = if (index.lookup stub.name).isSome then index.size else index.size + 1 := by
  simp only [size, insert, lookup, Std.TreeMap.size_insertIfNew]
  by_cases hmem : stub.name ∈ index.stubs
  · simp [hmem]
  · simp [hmem]

/-- Whether two indices have stubs under the same names, and those under each name are in a
relation. -/
structure Relates (R : ClassStub → ClassStub → Prop) (old new : ClassIndex) : Prop where
  size : new.size = old.size
  lookup : ∀ name, Option.Rel R (old.lookup name) (new.lookup name)

section Relates

variable {R : ClassStub → ClassStub → Prop} {old new : ClassIndex}

/-- An index is related to itself where every stub is. -/
theorem Relates.refl (hrefl : ∀ stub, R stub stub) (index : ClassIndex) :
    Relates R index index := by
  refine ⟨rfl, fun name => ?_⟩
  cases index.lookup name with
  | none => exact .none
  | some stub => exact .some (hrefl stub)

/-- Two indices stay related when each gets a class, of one name and related. One is added exactly
if the other is. -/
theorem Relates.insert (h : Relates R old new) {stub stub' : ClassStub} (hstub : R stub stub')
    (hname : stub'.name = stub.name) : Relates R (old.insert stub) (new.insert stub') := by
  constructor
  · -- Both indices have the name already, or neither has.
    rw [size_insert, size_insert, hname, h.size]
    have hlookup := h.lookup stub.name
    generalize old.lookup stub.name = found at hlookup ⊢
    generalize new.lookup stub.name = found' at hlookup ⊢
    cases hlookup <;> rfl
  · intro name
    rw [lookup_insert, lookup_insert, hname]
    have hlookup := h.lookup name
    generalize old.lookup name = found at hlookup ⊢
    generalize new.lookup name = found' at hlookup ⊢
    split
    · cases hlookup with
      | none => exact .some hstub
      | some hfound => exact .some hfound
    · exact hlookup

/-- So they do when each gets several. -/
theorem Relates.insertAll (h : Relates R old new) {stubs stubs' : List ClassStub}
    (hstubs : List.Forall₂ R stubs stubs') (hname : ∀ stub stub', R stub stub' →
      stub'.name = stub.name) : Relates R (old.insertAll stubs) (new.insertAll stubs') := by
  induction hstubs generalizing old new with
  | nil => exact h
  | cons hhead _ ih => exact ih (h.insert hhead (hname _ _ hhead))

end Relates

/-- An index finds what it had, or else the first of the classes that were added. Classes are taken
up in order, and none takes another one's place. -/
theorem lookup_insertAll (index : ClassIndex) (stubs : List ClassStub) (name : String) :
    (index.insertAll stubs).lookup name
      = (index.lookup name).or (stubs.find? fun stub => stub.name = name) := by
  induction stubs generalizing index with
  | nil => exact (Option.or_none).symm
  | cons stub stubs ih =>
    rw [insertAll, List.foldl_cons, ← insertAll, ih, lookup_insert, List.find?_cons]
    by_cases hname : name = stub.name
    · subst hname
      cases index.lookup stub.name <;> simp
    · rw [if_neg hname]
      simp [Ne.symm hname]

/-- What is found in an index under a name was in it, or is one of the classes of that name that
have been added. -/
theorem mem_of_lookup_insertAll {index : ClassIndex} {stubs : List ClassStub} {name : String}
    {stub : ClassStub} (h : (index.insertAll stubs).lookup name = some stub) :
    index.lookup name = some stub ∨ stub ∈ stubs ∧ stub.name = name := by
  induction stubs generalizing index with
  | nil => exact .inl h
  | cons first rest ih =>
    -- What is found was there after the first class, or is one of the rest.
    rcases ih h with hfound | ⟨hmem, hname⟩
    · rw [lookup_insert] at hfound
      split at hfound
      · next hname =>
        cases hold : index.lookup name with
        | none =>
          rw [hold] at hfound
          cases hfound
          exact .inr ⟨List.mem_cons_self .., hname.symm⟩
        | some old =>
          rw [hold] at hfound
          exact .inl hfound
      · exact .inl hfound
    · exact .inr ⟨List.mem_cons_of_mem _ hmem, hname⟩

/-- Classes that correspond have stubs that do. -/
theorem forall₂_stubsOf {R : ClassStub → ClassStub → Prop} {olds news : List ClassFile}
    (h : List.Forall₂ (fun old new => ∃ stub stub', old.stub = .ok stub ∧ new.stub = .ok stub'
      ∧ R stub stub') olds news) : List.Forall₂ R (stubsOf olds) (stubsOf news) := by
  refine List.rel_filterMap (fun old new hstubs => ?_) h
  obtain ⟨stub, stub', hstub, hstub', hrelated⟩ := hstubs
  rw [hstub, hstub']
  exact .some hrelated

/-- The stubs of classes are those of one of them each. -/
theorem mem_stubsOf {classes : List ClassFile} {stub : ClassStub} :
    stub ∈ stubsOf classes ↔ ∃ c ∈ classes, c.stub = .ok stub := by
  have hstub (c : ClassFile) : c.stub.toOption = some stub ↔ c.stub = .ok stub := by
    cases c.stub with
    | error e => exact ⟨nofun, nofun⟩
    | ok found => exact ⟨fun h => congrArg _ (Option.some.inj h), fun h => congrArg _ h⟩
  unfold stubsOf
  simp only [List.mem_filterMap, hstub]

/-- A stub in the index of classes is that of a class with the name. -/
theorem exists_of_lookup_ofClasses {classes : List ClassFile} {name : String} {stub : ClassStub}
    (h : (ofClasses classes).lookup name = some stub) :
    stub.name = name ∧ ∃ c ∈ classes, c.stub = .ok stub := by
  rcases mem_of_lookup_insertAll h with hempty | ⟨hmem, hname⟩
  · simp [lookup, empty] at hempty
  · exact ⟨hname, mem_stubsOf.1 hmem⟩

end ClassIndex

namespace Scope

/-! ## Scopes of classes

Scopes are made of class files, and so every stub is found under its own name, with method types
that are those of its descriptors. -/

/-- Whether every stub that can be seen is found under its own name. -/
def Named (scope : Scope) : Prop := ∀ name stub, scope.lookup name = some stub → stub.name = name

section OfBatch

variable {batch libraries : List ClassFile} {name : String} {stub : ClassStub}

/-- Of the classes of a batch and a classpath, the first one of a name can be seen. -/
theorem lookup_ofBatch (batch libraries : List ClassFile) (name : String) :
    (ofBatch batch (.ofClasses libraries)).lookup name
      = (ClassIndex.stubsOf (batch ++ libraries)).find? fun stub => stub.name = name := by
  have hempty : ClassIndex.empty.lookup name = none := Std.TreeMap.getElem?_emptyc
  unfold lookup ofBatch ClassIndex.ofClasses
  simp only [ClassIndex.lookup_insertAll, hempty, Option.none_or]
  unfold ClassIndex.stubsOf
  rw [List.filterMap_append, List.find?_append]
  exact Option.orElse_eq_or

/-- What can be seen of a batch on a classpath are the classes of both. The batch comes first. -/
theorem exists_of_lookup_ofBatch
    (h : (ofBatch batch (.ofClasses libraries)).lookup name = some stub) :
    stub.name = name ∧ ∃ c ∈ batch ++ libraries, c.stub = .ok stub := by
  unfold lookup at h
  cases hbatch : (ClassIndex.ofClasses batch).lookup name with
  | some found =>
    rw [show (ofBatch batch (.ofClasses libraries)).batch.lookup name = some found from hbatch] at h
    cases h
    obtain ⟨hname, c, hmem, hc⟩ := ClassIndex.exists_of_lookup_ofClasses hbatch
    exact ⟨hname, c, List.mem_append_left _ hmem, hc⟩
  | none =>
    rw [show (ofBatch batch (.ofClasses libraries)).batch.lookup name = none from hbatch] at h
    obtain ⟨hname, c, hmem, hc⟩ := ClassIndex.exists_of_lookup_ofClasses h
    exact ⟨hname, c, List.mem_append_right _ hmem, hc⟩

/-- Every stub in a scope of classes is found under its own name. -/
theorem named_ofBatch : (ofBatch batch (.ofClasses libraries)).Named :=
  fun _ _ h => (exists_of_lookup_ofBatch h).1

/-- The types of the methods of every stub are those of their descriptors. -/
theorem seesDescribed_ofBatch : Weave.SeesDescribed (ofBatch batch (.ofClasses libraries)) := by
  intro name stub h m hm
  obtain ⟨_, c, _, hc⟩ := exists_of_lookup_ofBatch h
  exact ClassFile.parse_of_mem_stub hc hm

end OfBatch

/-! ## The chain of superclasses

A chain goes on as long as superclasses can be seen and none comes twice. -/

/-- All classes on a chain of superclasses can be seen. The chain ends where one cannot. -/
theorem exists_lookup_of_mem_chainFrom {scope : Scope} {fuel : Nat} {seen : List String}
    {name : String} {stub : ClassStub} (h : stub ∈ scope.chainFrom fuel seen name) :
    ∃ child, scope.lookup child = some stub := by
  induction fuel generalizing seen name with
  | zero => cases h
  | succ fuel ih =>
    unfold chainFrom at h
    split at h
    · cases h
    · next first hfirst =>
      split at h
      · cases h
      · rcases List.mem_cons.1 h with rfl | h
        · exact ⟨name, hfirst⟩
        · split at h
          · cases h
          · exact ih h

/-- Stubs on a chain are found under their own names. -/
theorem lookup_of_mem_chainFrom {scope : Scope} (hnamed : scope.Named) {fuel : Nat}
    {seen : List String} {name : String} {stub : ClassStub}
    (h : stub ∈ scope.chainFrom fuel seen name) : scope.lookup stub.name = some stub := by
  obtain ⟨child, hchild⟩ := exists_lookup_of_mem_chainFrom h
  rwa [hnamed child stub hchild]

/-- A class on the chain of superclasses can be seen under its name. -/
theorem lookup_of_mem_superclasses {scope : Scope} (hnamed : scope.Named) {name : String}
    {stub : ClassStub} (h : stub ∈ scope.superclasses name) :
    scope.lookup stub.name = some stub :=
  lookup_of_mem_chainFrom hnamed h

/-- Above a class whose superclass cannot be seen there is nothing. The class itself is all of its
chain. -/
theorem superclasses_eq_singleton {scope : Scope} {name : String} {stub : ClassStub}
    (h : scope.lookup name = some stub)
    (hparent : ∀ parent, stub.superName = some parent → scope.lookup parent = none) :
    scope.superclasses name = [stub] := by
  have hnone : ∀ fuel seen parent, stub.superName = some parent →
      scope.chainFrom fuel seen parent = [] := by
    intro fuel seen parent hsuper
    cases fuel with
    | zero => rfl
    | succ fuel =>
      unfold chainFrom
      rw [hparent parent hsuper]
  unfold superclasses chainFrom
  simp only [h, List.contains_nil, Bool.false_eq_true, if_false]
  split
  · rfl
  · next parent hsuper => rw [hnone _ _ parent hsuper]

/-- The interfaces of stubs that can be seen are the interfaces under their names. -/
theorem flatMap_interfaces {scope : Scope} {stubs : List ClassStub}
    (h : ∀ stub ∈ stubs, scope.lookup stub.name = some stub) :
    stubs.flatMap (·.interfaces) = (stubs.map (·.name)).flatMap scope.interfacesOf := by
  rw [List.flatMap_map]
  refine List.flatMap_congr fun stub hstub => ?_
  rw [interfacesOf, h stub hstub]

/-! ## Scopes before and after

Where stubs keep name and superclass, chains are the same; where they keep interfaces, sets of
interfaces are. Only lambda carriers get other interfaces. -/

/-- What is related in two batches is so with one classpath behind them. What the batch does not
have, the classpath gives to both. -/
theorem rel_lookup_ofBatch {R : ClassStub → ClassStub → Prop} (hrefl : ∀ stub, R stub stub)
    {olds news : List ClassFile} {name : String}
    (h : Option.Rel R ((ClassIndex.ofClasses olds).lookup name)
      ((ClassIndex.ofClasses news).lookup name)) (classpath : ClassIndex) :
    Option.Rel R ((ofBatch olds classpath).lookup name) ((ofBatch news classpath).lookup name) := by
  unfold ofBatch lookup
  simp only
  generalize (ClassIndex.ofClasses olds).lookup name = found at h ⊢
  generalize (ClassIndex.ofClasses news).lookup name = found' at h ⊢
  cases h with
  | some hsame => exact .some hsame
  | none =>
    cases classpath.lookup name with
    | none => exact .none
    | some stub => exact .some (hrefl stub)

/-- Chains of superclasses go the same way in two scopes if what can be seen under one name has one
name and one superclass. Both end after as many steps. -/
theorem forall₂_chainFrom {R : ClassStub → ClassStub → Prop} {before after : Scope}
    (hsame : ∀ old new, R old new → new.name = old.name ∧ new.superName = old.superName)
    (hlookup : ∀ name, Option.Rel R (before.lookup name) (after.lookup name)) (fuel : Nat)
    (seen : List String) (name : String) :
    List.Forall₂ R (before.chainFrom fuel seen name) (after.chainFrom fuel seen name) := by
  induction fuel generalizing seen name with
  | zero => exact .nil
  | succ fuel ih =>
    have hfound := hlookup name
    unfold chainFrom
    generalize before.lookup name = found at hfound ⊢
    generalize after.lookup name = found' at hfound ⊢
    cases hfound with
    | none => exact .nil
    | some hrelated =>
      -- Names and superclasses are the same, so both chains go on to the same class or end
      -- together.
      simp only [(hsame _ _ hrelated).1, (hsame _ _ hrelated).2]
      split
      · exact .nil
      · refine .cons hrelated ?_
        split
        · exact .nil
        · exact ih _ _

open Weave (KeepsSignatures)

/-- Whether under the same names stubs can be seen of which one keeps the signatures of the
other. -/
structure Keeps (conventions : Conventions) (before after : Scope) : Prop where
  size : after.size = before.size
  lookup : ∀ name,
    Option.Rel (KeepsSignatures conventions) (before.lookup name) (after.lookup name)

section Keeps

variable {conventions : Conventions} {before after : Scope}

/-- Batches that correspond make scopes that do, on one classpath. -/
theorem keeps_of_batch {olds news : List ClassFile} {classpath : ClassIndex}
    (h : ClassIndex.Relates (KeepsSignatures conventions) (.ofClasses olds) (.ofClasses news)) :
    Keeps conventions (.ofBatch olds classpath) (.ofBatch news classpath) := by
  refine ⟨?_, fun name => rel_lookup_ofBatch (fun _ => .refl _) (h.lookup name) classpath⟩
  show (ClassIndex.ofClasses news).size + classpath.size
    = (ClassIndex.ofClasses olds).size + classpath.size
  rw [h.size]

/-- What can be seen afterwards could be seen before. -/
theorem Keeps.exists_lookup (h : Keeps conventions before after) {name : String}
    {stub : ClassStub} (hstub : after.lookup name = some stub) :
    ∃ old, before.lookup name = some old ∧ KeepsSignatures conventions old stub := by
  have hlookup := h.lookup name
  rw [hstub] at hlookup
  generalize before.lookup name = found at hlookup ⊢
  cases hlookup with
  | some hkeeps => exact ⟨_, rfl, hkeeps⟩

theorem Keeps.forall₂_chainFrom (h : Keeps conventions before after) (fuel : Nat)
    (seen : List String) (name : String) : List.Forall₂ (KeepsSignatures conventions)
      (before.chainFrom fuel seen name) (after.chainFrom fuel seen name) :=
  Scope.forall₂_chainFrom (fun _ _ hkeeps => ⟨hkeeps.name, hkeeps.superName⟩) h.lookup _ _ _

/-- All superclasses of a class correspond. -/
theorem Keeps.forall₂_superclasses (h : Keeps conventions before after) (name : String) :
    List.Forall₂ (KeepsSignatures conventions) (before.superclasses name)
      (after.superclasses name) := by
  unfold superclasses
  rw [h.size]
  exact h.forall₂_chainFrom _ _ _

/-- Stubs go on being found under their own names. -/
theorem Keeps.named (h : Keeps conventions before after) (hnamed : before.Named) :
    after.Named := by
  intro name stub hstub
  obtain ⟨old, hold, hkeeps⟩ := h.exists_lookup hstub
  rw [hkeeps.name, hnamed name old hold]

/-- Only lambda carriers have other interfaces than before. Forwarders and redirected calls change
no interfaces. -/
theorem Keeps.isLambdaCarrier_of_interfacesOf_ne (h : Keeps conventions before after)
    (hnamed : before.Named) {name : String}
    (hne : after.interfacesOf name ≠ before.interfacesOf name) :
    conventions.isLambdaCarrier name = true := by
  have hlookup := h.lookup name
  unfold interfacesOf at hne
  -- A class that cannot be seen has no interfaces in either scope.
  cases hfound : before.lookup name with
  | none =>
    rw [hfound] at hlookup hne
    generalize after.lookup name = found' at hlookup hne
    cases hlookup
    exact absurd rfl hne
  | some stub =>
    have hname := hnamed name stub hfound
    rw [hfound] at hlookup hne
    generalize after.lookup name = found' at hlookup hne
    cases hlookup with
    | some hkeeps =>
      rcases hkeeps.interfaces with hsame | hcarrier
      · exact absurd hsame hne
      · rwa [hname] at hcarrier

/-! ## The interfaces of a class

What interfaces a class has depends on those of its superclasses and on those of the interfaces
themselves. These together are its `lineage`. -/

/-- Walks of interfaces in two scopes are the same where the interfaces on them are. Nothing else is
asked on the way. -/
theorem closureFrom_congr {fuel : Nat} {seen frontier : List String}
    (h : ∀ name ∈ before.closureFrom fuel seen frontier,
      after.interfacesOf name = before.interfacesOf name) :
    after.closureFrom fuel seen frontier = before.closureFrom fuel seen frontier := by
  -- All that the first walk meets is in what it gives, so the hypothesis reaches every step.
  induction fuel generalizing seen frontier with
  | zero => rfl
  | succ fuel ih =>
    unfold closureFrom at h ⊢
    generalize (frontier.filter fun name => !seen.contains name).eraseDups = fresh at h ⊢
    cases fresh with
    | nil => rfl
    | cons first rest =>
      simp only at h ⊢
      obtain ⟨hfresh, hrest⟩ := List.forall_mem_append.1 h
      rw [List.flatMap_congr hfresh, ih hrest]

/-- The classes and interfaces on which it depends what interfaces a class has. -/
def lineage (scope : Scope) (name : String) : List String :=
  (scope.superclasses name).map (·.name) ++ scope.interfaceClosure name

/-- **A class has the interfaces that it had**, or a lambda carrier of its lineage has others than
it had. -/
theorem Keeps.interfaceClosure_eq_or_changed (h : Keeps conventions before after)
    (hnamed : before.Named) (name : String) :
    after.interfaceClosure name = before.interfaceClosure name
      ∨ ∃ carrier ∈ before.lineage name, conventions.isLambdaCarrier carrier = true
        ∧ after.interfacesOf carrier ≠ before.interfacesOf carrier := by
  by_cases hsame : ∀ other ∈ before.lineage name,
      after.interfacesOf other = before.interfacesOf other
  · obtain ⟨hchain, hclosure⟩ := List.forall_mem_append.1 hsame
    refine .inl ?_
    have hnames : (after.superclasses name).map (·.name)
        = (before.superclasses name).map (·.name) := by
      refine List.forall₂_eq_eq_eq ▸ ?_
      rw [List.forall₂_map_left_iff, List.forall₂_map_right_iff]
      exact ((h.forall₂_superclasses name).imp fun _ _ hkeeps => hkeeps.name).flip
    -- The walk starts from the interfaces of the superclasses, which are in the lineage.
    have hfrontier : (after.superclasses name).flatMap (·.interfaces)
        = (before.superclasses name).flatMap (·.interfaces) := by
      rw [flatMap_interfaces fun _ hstub => lookup_of_mem_superclasses (h.named hnamed) hstub,
        flatMap_interfaces fun _ hstub => lookup_of_mem_superclasses hnamed hstub, hnames]
      exact List.flatMap_congr hchain
    unfold interfaceClosure at hclosure ⊢
    rw [hfrontier, h.size]
    exact closureFrom_congr hclosure
  · push Not at hsame
    obtain ⟨carrier, hmem, hne⟩ := hsame
    exact .inr ⟨carrier, hmem, h.isLambdaCarrier_of_interfacesOf_ne hnamed hne, hne⟩

end Keeps
end Scope

namespace Weave

/-- **What can be seen of a batch before and after weaving** corresponds. Every class that could be
seen can still be, under its name. -/
theorem keeps_weave {conventions : Conventions} {batch libraries : List ClassFile}
    (hnamed : ∀ c ∈ batch, conventions.isLambdaCarrier c.name = true →
      (FieldType.object c.name).IsNamed)
    (hstubs : ∀ c ∈ batch, ∃ stub, c.stub = .ok stub) :
    Scope.Keeps conventions (.ofBatch batch (.ofClasses libraries))
      (.ofBatch (weave conventions (.ofClasses libraries) batch).classes
        (.ofClasses libraries)) := by
  have hscope : SeesDescribed (.ofBatch batch (.ofClasses libraries)) := Scope.seesDescribed_ofBatch
  have hstubs := ClassIndex.forall₂_stubsOf (keepsSignatures_weave hscope hnamed hstubs)
  have hempty : ClassIndex.Relates (KeepsSignatures conventions) .empty .empty :=
    .refl (fun _ => .refl _) _
  exact Scope.keeps_of_batch (hempty.insertAll hstubs fun _ _ hkeeps => hkeeps.name)

end Weave
end ClassLoom
