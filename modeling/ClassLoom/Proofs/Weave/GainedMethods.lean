import ClassLoom.Proofs.Weave.OfferedMethods
import ClassLoom.Proofs.Weave.WovenScope

/-!
# Methods that come by later

Forwarders are methods with bodies and are not static, so no class offers more once it has got
them, wherever it stands among superclasses, interfaces and companions (`Scope.Gains`). What it
inherits with a body can only become more.

* `Offers.of_gains`, `InheritsBody.gains`, `interfaceClosure_of_gains`: what it depends on whether
  a class lacks a method;
* `LacksDefault.of_gains`: a class that lacks a method then has lacked it before;
* `gains_ofBatch`: the scopes of a batch of which one class has got methods.
-/

namespace ClassLoom

/-- Whether a stub is another one with more methods, all of them with bodies and none static. -/
def ClassStub.Gains (old new : ClassStub) : Prop :=
  ∃ added, new = { old with methods := old.methods ++ added }
    ∧ ∀ m ∈ added, m.isAbstract = false ∧ m.isStatic = false

namespace ClassStub

variable {old new : ClassStub}

theorem Gains.refl (stub : ClassStub) : stub.Gains stub :=
  ⟨[], by rw [List.append_nil], nofun⟩

theorem Gains.name (h : old.Gains new) : new.name = old.name := by
  obtain ⟨_, rfl, _⟩ := h
  rfl

theorem Gains.superName (h : old.Gains new) : new.superName = old.superName := by
  obtain ⟨_, rfl, _⟩ := h
  rfl

theorem Gains.interfaces (h : old.Gains new) : new.interfaces = old.interfaces := by
  obtain ⟨_, rfl, _⟩ := h
  rfl

theorem Gains.subset (h : old.Gains new) : old.methods ⊆ new.methods := by
  obtain ⟨_, rfl, _⟩ := h
  exact List.subset_append_left ..

/-- A method without a body is one that was there, since those that are new have bodies. -/
theorem Gains.mem_of_isAbstract (h : old.Gains new) {m : MethodStub} (hm : m ∈ new.methods)
    (habstract : m.isAbstract = true) : m ∈ old.methods := by
  obtain ⟨added, rfl, hadded⟩ := h
  rcases List.mem_append.1 hm with hm | hm
  · exact hm
  · rw [(hadded m hm).1] at habstract
    cases habstract

/-- A method that is looked up and is static has been there. New methods come last, so they hide
none, and none of them is static. -/
theorem Gains.isStatic_method? (h : old.Gains new) {name descriptor : String}
    (hstatic : ((new.method? name descriptor).map (·.isStatic)).getD false = true) :
    ((old.method? name descriptor).map (·.isStatic)).getD false = true := by
  obtain ⟨added, rfl, hadded⟩ := h
  unfold method? at hstatic ⊢
  rw [List.find?_append] at hstatic
  generalize hfront : old.methods.find? _ = front at hstatic ⊢
  cases front with
  | some m => exact hstatic
  | none =>
    generalize hback : added.find? _ = back at hstatic
    cases back with
    | none => cases hstatic
    | some m =>
      have hstatic : m.isStatic = true := hstatic
      rw [(hadded m (List.mem_of_find?_eq_some hback)).2] at hstatic
      cases hstatic

end ClassStub

namespace Scope

/-- Whether under the same names stubs can be seen of which some have got methods. -/
structure Gains (before after : Scope) : Prop where
  size : after.size = before.size
  lookup : ∀ name, Option.Rel ClassStub.Gains (before.lookup name) (after.lookup name)

section Gains

variable {before after : Scope} {name : String}

/-- What can be seen afterwards could be seen before, with fewer methods. -/
theorem Gains.exists_lookup (h : Gains before after) {new : ClassStub}
    (hnew : after.lookup name = some new) :
    ∃ old, before.lookup name = some old ∧ old.Gains new := by
  have hlookup := h.lookup name
  rw [hnew] at hlookup
  generalize before.lookup name = found at hlookup ⊢
  cases hlookup with
  | some hgains => exact ⟨_, rfl, hgains⟩

/-- Chains of superclasses go by the same names. -/
theorem Gains.forall₂_superclasses (h : Gains before after) (name : String) :
    List.Forall₂ ClassStub.Gains (before.superclasses name) (after.superclasses name) := by
  unfold superclasses
  rw [h.size]
  exact forall₂_chainFrom (fun _ _ hgains => ⟨hgains.name, hgains.superName⟩) h.lookup _ _ _

/-- Under every name the same interfaces are listed. -/
theorem Gains.interfacesOf (h : Gains before after) (name : String) :
    after.interfacesOf name = before.interfacesOf name := by
  have hlookup := h.lookup name
  unfold Scope.interfacesOf
  generalize before.lookup name = found at hlookup ⊢
  generalize after.lookup name = found' at hlookup ⊢
  cases hlookup with
  | none => rfl
  | some hgains => exact hgains.interfaces

/-- **A class has the interfaces that it had.** The walk over them goes the same way. -/
theorem interfaceClosure_of_gains (h : Gains before after) (name : String) :
    after.interfaceClosure name = before.interfaceClosure name := by
  have hlisted : ∀ {olds news : List ClassStub}, List.Forall₂ ClassStub.Gains olds news →
      news.flatMap (·.interfaces) = olds.flatMap (·.interfaces) := by
    intro olds news hgains
    induction hgains with
    | nil => rfl
    | cons hhead _ ih => rw [List.flatMap_cons, List.flatMap_cons, hhead.interfaces, ih]
  unfold interfaceClosure
  rw [h.size, hlisted (h.forall₂_superclasses name)]
  exact closureFrom_congr fun name _ => h.interfacesOf name

end Gains
end Scope

namespace Weave

section Lacks

variable {conventions : Conventions} {before after : Scope} {interfaceName name descriptor : String}

/-- **No interface offers more than before.** What it offers are methods without bodies, which
static ones of the companion implement, and neither are new. -/
theorem Offers.of_gains (hgains : before.Gains after)
    (h : Offers { scope := after, conventions } interfaceName name descriptor) :
    Offers { scope := before, conventions } interfaceName name descriptor := by
  obtain ⟨⟨stub, hstub, m, hm, habstract, hstatic, hname, hdescriptor⟩, himplemented⟩ := h
  obtain ⟨companion, hcompanion, htarget⟩ := declaresStatic_eq_true_iff.1 himplemented
  obtain ⟨old, hold, hold'⟩ := hgains.exists_lookup hstub
  obtain ⟨oldCompanion, holdCompanion, hcompanion'⟩ := hgains.exists_lookup hcompanion
  exact ⟨⟨old, hold, m, hold'.mem_of_isAbstract hm habstract, habstract, hstatic, hname,
    hdescriptor⟩, declaresStatic_eq_true_iff.2
      ⟨oldCompanion, holdCompanion, hcompanion'.isStatic_method? htarget⟩⟩

/-- What has been inherited with a body is so still. -/
theorem InheritsBody.gains (hgains : before.Gains after) {className : String}
    (h : InheritsBody before className name descriptor) :
    InheritsBody after className name descriptor := by
  obtain ⟨parent, hparent, m, hm, hbody, hname, hdescriptor⟩ := h
  obtain ⟨parent', hparent', hsame⟩ :=
    exists_of_mem_left (List.forall₂_drop 1 (hgains.forall₂_superclasses className)) hparent
  exact ⟨parent', hparent', m, hsame.subset hm, hbody, hname, hdescriptor⟩

/-- **A class that lacks a method then has lacked it before.** So forwarders that were needed once
are the only ones ever needed. -/
theorem LacksDefault.of_gains (hgains : before.Gains after) {c c' : ClassFile}
    (hname : c'.name = c.name) (hmethods : c.methods ⊆ c'.methods)
    (h : LacksDefault { scope := after, conventions } c' name descriptor) :
    LacksDefault { scope := before, conventions } c name descriptor := by
  obtain ⟨⟨interfaceName, hinterface, hoffers⟩, hundeclared, huninherited⟩ := h
  rw [hname, Scope.interfaceClosure_of_gains hgains] at hinterface
  refine ⟨⟨interfaceName, hinterface, hoffers.of_gains hgains⟩, ?_, fun hinherits => ?_⟩
  · rintro ⟨m, hm, hkey⟩
    exact hundeclared ⟨m, hmethods hm, hkey⟩
  · exact huninherited (hname ▸ hinherits.gains hgains)

end Lacks

/-- **Scopes of a batch of which one class has got methods.** Under its name the later scope shows
more methods, and under all others the same. -/
theorem gains_ofBatch {c c' : ClassFile} {stub stub' : ClassStub} (hstub : c.stub = .ok stub)
    (hstub' : c'.stub = .ok stub') (hgains : stub.Gains stub') (front back : List ClassFile)
    (classpath : ClassIndex) :
    (Scope.ofBatch (front ++ c :: back) classpath).Gains
      (.ofBatch (front ++ c' :: back) classpath) := by
  have hrefl : ∀ stubs : List ClassStub, List.Forall₂ ClassStub.Gains stubs stubs :=
    fun stubs => List.forall₂_same.2 fun stub _ => .refl stub
  have hstubs : List.Forall₂ ClassStub.Gains (ClassIndex.stubsOf (front ++ c :: back))
      (ClassIndex.stubsOf (front ++ c' :: back)) := by
    unfold ClassIndex.stubsOf
    rw [List.filterMap_append, List.filterMap_append, List.filterMap_cons, List.filterMap_cons,
      hstub, hstub']
    exact List.rel_append (hrefl _) (.cons hgains (hrefl _))
  have hrelates : ClassIndex.Relates ClassStub.Gains (.ofClasses (front ++ c :: back))
      (.ofClasses (front ++ c' :: back)) :=
    (ClassIndex.Relates.refl .refl .empty).insertAll hstubs fun _ _ h => h.name
  refine ⟨?_, fun name => Scope.rel_lookup_ofBatch .refl (hrelates.lookup name) classpath⟩
  show (ClassIndex.ofClasses (front ++ c' :: back)).size + classpath.size
    = (ClassIndex.ofClasses (front ++ c :: back)).size + classpath.size
  rw [hrelates.size]

end Weave
end ClassLoom
