import ClassLoom.Proofs.Scope.InterfaceClosure
import ClassLoom.Proofs.Weave.Migration

/-!
# What can be seen in each phase

Where all classes of a batch have stubs, every phase sees classes of the same names, on the same
chains of superclasses, with the same polyfills. Redirecting calls changes nothing that can be
seen, and narrowing only what lambda carriers declare (`Narrows`): a name behind which there is no
carrier has the same methods, declared in the same places.

* `keeps_prepared`, `keeps_woven`: the scopes of a batch before preparing, behind it, and in the
  end;
* `narrowed_woven`: what can be seen when calls are redirected, and in the end;
* `declaringClass_eq`: methods that are declared in the same place in both;
* `mem_interfaceClosure_of_gained`: what classes gain by the new interfaces of others.
-/

namespace ClassLoom

open ConstantPool

namespace ClassIndex

/-- What is related is so in every wider relation. -/
theorem Relates.imp {R S : ClassStub → ClassStub → Prop} {old new : ClassIndex}
    (h : Relates R old new) (himp : ∀ stub stub', R stub stub' → S stub stub') :
    Relates S old new := by
  refine ⟨h.size, fun name => ?_⟩
  have hlookup := h.lookup name
  generalize old.lookup name = found at hlookup ⊢
  generalize new.lookup name = found' at hlookup ⊢
  cases hlookup with
  | none => exact .none
  | some hrelated => exact .some (himp _ _ hrelated)

/-- Batches whose classes correspond have indices that do. -/
theorem relates_of_forall₂ {R : ClassStub → ClassStub → Prop} {olds news : List ClassFile}
    (hname : ∀ stub stub', R stub stub' → stub'.name = stub.name)
    (h : List.Forall₂ (fun old new => ∃ stub stub', old.stub = .ok stub ∧ new.stub = .ok stub'
      ∧ R stub stub') olds news) : Relates R (ofClasses olds) (ofClasses news) := by
  have hempty : Relates R empty empty := by
    refine ⟨rfl, fun name => ?_⟩
    have hnone : empty.lookup name = none := Std.TreeMap.getElem?_emptyc
    rw [hnone]
    exact .none
  exact hempty.insertAll (forall₂_stubsOf h) hname

end ClassIndex

namespace Weave

open Member (Rebodied)

/-! ## Stubs before and after a phase

A phase changes what is seen of a class as little as possible: its calls do not show in a stub, and
of the rest it shows what is added or, in the last phase, taken away. -/

section Stubs

variable {conventions : Conventions}

theorem KeepsAll.kept {old new : ClassFile} (h : KeepsAll conventions old new) :
    Kept conventions old new :=
  ⟨h.outline, .inl h.methods⟩

/-- What is kept of a stub makes the same polyfill. -/
theorem Kept.samePolyfill {old new : ClassFile} (h : Kept conventions old new)
    {stub stub' : ClassStub} (hold : old.stub = .ok stub) (hnew : new.stub = .ok stub') :
    SamePolyfill stub stub' := by
  obtain ⟨annotations, _, hannotations, _, rfl⟩ := ClassFile.stub_eq_ok.1 hold
  obtain ⟨annotations', _, hannotations', _, rfl⟩ := ClassFile.stub_eq_ok.1 hnew
  rw [ClassFile.annotations_grown h.outline.pool h.outline.attributes hannotations]
    at hannotations'
  cases hannotations'
  exact ⟨h.outline.access, rfl⟩

/-- Classes that are kept have stubs of which one keeps the signatures of the other, and makes the
same polyfill. -/
theorem forall₂_stubs_of_kept {olds news : List ClassFile}
    (hkept : List.Forall₂ (Kept conventions) olds news)
    (hstubs : ∀ c ∈ olds, ∃ stub, c.stub = .ok stub) (hdescribed : ∀ c ∈ news, c.Described) :
    List.Forall₂ (fun old new => ∃ stub stub', old.stub = .ok stub ∧ new.stub = .ok stub'
      ∧ KeepsSignatures conventions stub stub' ∧ SamePolyfill stub stub') olds news := by
  refine List.forall₂_iff_zip.2 ⟨hkept.length_eq, fun {old new} hmem => ?_⟩
  have hsame := (List.forall₂_iff_zip.1 hkept).2 hmem
  obtain ⟨hold, hnew⟩ := List.of_mem_zip hmem
  obtain ⟨stub, hstub⟩ := hstubs old hold
  obtain ⟨stub', hstub'⟩ := hsame.exists_stub (hdescribed new hnew) hstub
  exact ⟨stub, stub', hstub, hstub', hsame.signatures hstub hstub', hsame.samePolyfill hstub hstub'⟩

/-- What narrowing leaves of a stub: all of it, or, of a lambda carrier, all but its interfaces and
its old factories. -/
structure Narrows (conventions : Conventions) (old new : ClassStub) : Prop where
  name : new.name = old.name
  superName : new.superName = old.superName
  same : SamePolyfill old new
  unchanged : conventions.isLambdaCarrier old.name = false → new = old
  methods : new.methods = old.methods
    ∨ new.methods = old.methods.filter (·.name ≠ conventions.lambdaFactory)

theorem Narrows.refl (stub : ClassStub) : Narrows conventions stub stub :=
  ⟨rfl, rfl, ⟨rfl, rfl⟩, fun _ => rfl, .inl rfl⟩

/-- Methods of other names than that of old factories are found as before. -/
theorem Narrows.method? {old new : ClassStub} (h : Narrows conventions old new) {name : String}
    (hname : name ≠ conventions.lambdaFactory) (descriptor : String) :
    new.method? name descriptor = old.method? name descriptor := by
  unfold ClassStub.method?
  rcases h.methods with hsame | hfiltered
  · rw [hsame]
  · rw [hfiltered, List.find?_filter]
    refine congrArg (List.find? · old.methods) (funext fun m => ?_)
    by_cases hm : m.name = name
    · simp [hm, hname]
    · simp [hm]

/-- Redirecting the calls of a class leaves its stub as it is: bodies do not show in it. -/
theorem stub_redirectCalls {s : Surroundings} {c : ClassFile} {stub : ClassStub}
    (h : c.stub = .ok stub) : (redirectCalls s c).1.stub = .ok stub := by
  obtain ⟨annotations, methods, hannotations, hmethods, rfl⟩ := ClassFile.stub_eq_ok.1 h
  have houtline := (redirectCalls_keepsAll s.conventions s c).outline
  refine ClassFile.stub_eq_ok.2 ⟨annotations, methods,
    ClassFile.annotations_grown houtline.pool houtline.attributes hannotations, ?_, ?_⟩
  · refine forall₂_trans (fun m' m stub hsame hstub => ?_)
      (redirectCalls_rebodied s c).flip hmethods
    obtain ⟨d, hd, rfl⟩ := MethodStub.ofMember_eq_ok.1 hstub
    refine MethodStub.ofMember_eq_ok.2 ⟨d, hsame.descriptor.symm ▸ hd, ?_⟩
    rw [hsame.access, hsame.name, hsame.descriptor]
  · rw [redirectCalls_fst]

/-- What narrowing a class does to its stub. Its interfaces may become fewer, and its old factories
go. -/
theorem narrows_narrowCarrier {s : Surroundings} {c : ClassFile} {stub : ClassStub}
    (h : c.stub = .ok stub) :
    ∃ stub', (narrowCarrier s c).stub = .ok stub' ∧ Narrows s.conventions stub stub' := by
  unfold narrowCarrier
  split
  · exact ⟨stub, h, .refl stub⟩
  · next polyfill hpolyfill =>
    split
    · obtain ⟨annotations, methods, hannotations, hmethods, rfl⟩ := ClassFile.stub_eq_ok.1 h
      have hcarrier := isLambdaCarrier_of_carrierPolyfill? hpolyfill
      have hfiltered := signatures_filter (fun name => name ≠ s.conventions.lambdaFactory) hmethods
      refine ⟨_, ClassFile.stub_eq_ok.2 ⟨annotations, _, hannotations, hfiltered, rfl⟩,
        rfl, rfl, ⟨rfl, rfl⟩, fun hnone => ?_, .inr rfl⟩
      rw [hcarrier] at hnone
      cases hnone
    · exact ⟨stub, h, .refl stub⟩

end Stubs
end Weave

/-! ## Scopes before and after narrowing

The last phase takes interfaces and factories away from carriers. For a class whose lineage has no
carriers in it nothing is different. -/

namespace Scope

open Weave (Narrows)

/-- Whether one scope is another one in which lambda carriers have been narrowed. -/
structure Narrowed (conventions : Conventions) (before after : Scope) : Prop where
  named : before.Named
  size : after.size = before.size
  lookup : ∀ name, Option.Rel (Narrows conventions) (before.lookup name) (after.lookup name)

namespace Narrowed

variable {conventions : Conventions} {before after : Scope} {name : String}

/-- Under the name of a class that is no carrier the same can be seen. Narrowing is the only step
between the two scopes that shows in stubs, and it is for carriers. -/
theorem lookup_eq (h : Narrowed conventions before after)
    (hname : conventions.isLambdaCarrier name = false) :
    after.lookup name = before.lookup name := by
  have hlookup := h.lookup name
  cases hfound : before.lookup name with
  | none =>
    rw [hfound] at hlookup
    generalize after.lookup name = found' at hlookup ⊢
    cases hlookup
    rfl
  | some stub =>
    have hstub := h.named name stub hfound
    rw [hfound] at hlookup
    generalize after.lookup name = found' at hlookup ⊢
    cases hlookup with
    | some hnarrows => rw [hnarrows.unchanged (hstub.symm ▸ hname)]

/-- A chain of superclasses without carriers stays as it is, class by class. Each class on it is
looked up by a name, and shows the same superclass. -/
theorem superclasses_eq (h : Narrowed conventions before after)
    (hnone : ∀ stub ∈ before.superclasses name, conventions.isLambdaCarrier stub.name = false) :
    after.superclasses name = before.superclasses name := by
  have hchain : List.Forall₂ (Narrows conventions) (before.superclasses name)
      (after.superclasses name) := by
    unfold superclasses
    rw [h.size]
    exact forall₂_chainFrom (fun _ _ hnarrows => ⟨hnarrows.name, hnarrows.superName⟩) h.lookup _ _ _
  generalize before.superclasses name = stubs at hchain hnone ⊢
  generalize after.superclasses name = stubs' at hchain ⊢
  induction hchain with
  | nil => rfl
  | cons hhead _ ih =>
    obtain ⟨hfirst, hrest⟩ := List.forall_mem_cons.1 hnone
    rw [hhead.unchanged hfirst, ih hrest]

section Free

variable (hfree : ∀ other ∈ before.lineage name, conventions.isLambdaCarrier other = false)

include hfree

theorem superclasses_eq_of_lineage (h : Narrowed conventions before after) :
    after.superclasses name = before.superclasses name :=
  h.superclasses_eq fun stub hstub =>
    hfree stub.name (List.mem_append_left _ (List.mem_map_of_mem hstub))

/-- It has all interfaces in it, too, so these are the same. -/
theorem interfaceClosure_eq (h : Narrowed conventions before after) :
    after.interfaceClosure name = before.interfaceClosure name := by
  unfold interfaceClosure
  rw [h.superclasses_eq_of_lineage hfree, h.size]
  refine closureFrom_congr fun other hother => ?_
  unfold interfacesOf
  rw [h.lookup_eq (hfree other (List.mem_append_right _ hother))]

theorem findMethod_eq (h : Narrowed conventions before after) (method descriptor : String) :
    after.findMethod name method descriptor = before.findMethod name method descriptor := by
  unfold findMethod
  rw [h.superclasses_eq_of_lineage hfree]

/-- **Methods are declared where they were**, for a class that has no carrier in its lineage. What
narrowing takes away is only taken from carriers. -/
theorem declaringClass_eq (h : Narrowed conventions before after) (method descriptor : String) :
    after.declaringClass name method descriptor = before.declaringClass name method descriptor := by
  have hinherited : ((after.interfaceClosure name).findSome? fun other =>
        (after.lookup other).filter fun stub => (stub.method? method descriptor).isSome)
      = (before.interfaceClosure name).findSome? fun other =>
        (before.lookup other).filter fun stub => (stub.method? method descriptor).isSome := by
    rw [h.interfaceClosure_eq hfree]
    have hclosure : ∀ other ∈ before.interfaceClosure name,
        after.lookup other = before.lookup other :=
      fun other hother => h.lookup_eq (hfree other (List.mem_append_right _ hother))
    generalize before.interfaceClosure name = closure at hclosure ⊢
    -- On the interfaces: in each the method is found as before.
    induction closure with
    | nil => rfl
    | cons other rest ih =>
      obtain ⟨hother, hrest⟩ := List.forall_mem_cons.1 hclosure
      rw [List.findSome?_cons, List.findSome?_cons, hother, ih hrest]
  unfold declaringClass
  rw [h.findMethod_eq hfree, hinherited]

end Free

end Narrowed

/-- Where signatures are kept, chains go by the same names. -/
theorem Keeps.names_superclasses {conventions : Conventions} {before after : Scope}
    (h : Keeps conventions before after) (name : String) :
    (after.superclasses name).map (·.name) = (before.superclasses name).map (·.name) := by
  refine List.forall₂_eq_eq_eq ▸ ?_
  rw [List.forall₂_map_left_iff, List.forall₂_map_right_iff]
  exact ((h.forall₂_superclasses name).imp fun _ _ hkeeps => hkeeps.name).flip

/-- The lineage of a class without carriers in it stays where signatures are kept. -/
theorem Keeps.lineage_eq {conventions : Conventions} {before after : Scope}
    (h : Keeps conventions before after) (hnamed : before.Named) {name : String}
    (hfree : ∀ other ∈ before.lineage name, conventions.isLambdaCarrier other = false) :
    after.lineage name = before.lineage name := by
  have hnames := h.names_superclasses name
  rcases h.interfaceClosure_eq_or_changed hnamed name with hsame | ⟨carrier, hmem, hcarrier, _⟩
  · rw [lineage, lineage, hnames, hsame]
  · rw [hfree carrier hmem] at hcarrier
    cases hcarrier

/-! ## Interfaces that are gained

A carrier that gains an interface gives it to all classes below. These gain what the interface
extends as well, and nothing else. -/

/-- The first class on the chain of a class that can be seen is the class itself. -/
theorem exists_superclasses_eq_cons {scope : Scope} {name : String} {stub : ClassStub}
    (h : scope.lookup name = some stub) : ∃ behind, scope.superclasses name = stub :: behind := by
  unfold superclasses chainFrom
  simp only [h, List.contains_nil, Bool.false_eq_true, if_false]
  exact ⟨_, rfl⟩

/-- A class has the interfaces that it lists itself. -/
theorem mem_interfaceClosure_of_interfacesOf {scope : Scope} {name listed : String}
    (h : listed ∈ scope.interfacesOf name) : listed ∈ scope.interfaceClosure name := by
  refine mem_interfaceClosure_iff.2 fun names hlisted _ => hlisted listed ?_
  unfold interfacesOf at h
  split at h
  · next stub hstub =>
    obtain ⟨behind, hsupers⟩ := exists_superclasses_eq_cons hstub
    rw [listedInterfaces, hsupers]
    exact List.mem_append_left _ h
  · cases h

/-- **What a class gains where other classes gain interfaces**: no more than those and what they
extend. An interface is reached along a path, and the last step of it that is new leads to one that
has been gained. -/
theorem mem_interfaceClosure_of_gained {conventions : Conventions} {before after : Scope}
    (hkeeps : Keeps conventions before after) (hnamed : before.Named) {gained : String → Prop}
    (hgained : ∀ child, ∀ name ∈ after.interfacesOf child,
      name ∈ before.interfacesOf child ∨ gained name) {className name : String}
    (h : name ∈ after.interfaceClosure className) : name ∈ before.interfaceClosure className
      ∨ ∃ other, gained other ∧ (name = other ∨ name ∈ before.interfaceClosure other) := by
  -- The interfaces of this kind are closed under what they extend in the end.
  refine mem_interfaceClosure_iff.1 h { name | name ∈ before.interfaceClosure className
      ∨ ∃ other, gained other ∧ (name = other ∨ name ∈ before.interfaceClosure other) }
    (fun listed hlisted => ?_) fun child hchild extended hextended => ?_
  · have hnames : (after.superclasses className).map (·.name)
        = (before.superclasses className).map (·.name) := hkeeps.names_superclasses className
    have hafter := flatMap_interfaces fun stub (hstub : stub ∈ after.superclasses className) =>
      lookup_of_mem_superclasses (hkeeps.named hnamed) hstub
    have hbefore := flatMap_interfaces fun stub (hstub : stub ∈ before.superclasses className) =>
      lookup_of_mem_superclasses hnamed hstub
    rw [listedInterfaces, hafter, hnames] at hlisted
    obtain ⟨child, hchild, hlisted⟩ := List.mem_flatMap.1 hlisted
    rcases hgained child listed hlisted with hold | hnew
    · refine .inl (mem_interfaceClosure_iff.2 fun names hroots _ => hroots listed ?_)
      rw [listedInterfaces, hbefore]
      exact List.mem_flatMap.2 ⟨child, hchild, hold⟩
    · exact .inr ⟨listed, hnew, .inl rfl⟩
  · rcases hgained child extended hextended with hold | hnew
    · rcases hchild with hchild | ⟨other, hother, rfl | hchild⟩
      · exact .inl (mem_interfaceClosure_of_extended hchild hold)
      · exact .inr ⟨child, hother, .inr (mem_interfaceClosure_of_interfacesOf hold)⟩
      · exact .inr ⟨other, hother, .inr (mem_interfaceClosure_of_extended hchild hold)⟩
    · exact .inr ⟨extended, hnew, .inl rfl⟩

end Scope

namespace Weave

/-! ## Scopes of a batch

Put together with what the phases do to classes, this says what can be seen of a batch in each
phase. It needs declarations that can be read from the beginning, so that no class comes into sight
later. -/

section Batch

variable {conventions : Conventions} {batch libraries : List ClassFile}

/-- Where classes are kept, signatures are, and all polyfills. Polyfills are known by what the stubs
say, and that is kept. -/
theorem seen_of_kept {olds news : List ClassFile}
    (hkept : List.Forall₂ (Kept conventions) olds news)
    (hstubs : ∀ c ∈ olds, ∃ stub, c.stub = .ok stub) (hdescribed : ∀ c ∈ news, c.Described)
    (classpath : ClassIndex) :
    Scope.Keeps conventions (.ofBatch olds classpath) (.ofBatch news classpath)
      ∧ ∀ name, (surroundings conventions classpath news).polyfill? name
        = (surroundings conventions classpath olds).polyfill? name := by
  have hrelates := ClassIndex.relates_of_forall₂ (fun _ _ h => h.1.name)
    (forall₂_stubs_of_kept hkept hstubs hdescribed)
  refine ⟨Scope.keeps_of_batch (hrelates.imp fun _ _ h => h.1), fun name => ?_⟩
  have hsame := hrelates.imp (S := SamePolyfill) fun _ _ h => h.2
  exact @polyfill?_of_rel (surroundings conventions classpath olds)
    (surroundings conventions classpath news) rfl name
    (Scope.rel_lookup_ofBatch (fun _ => ⟨rfl, rfl⟩) (hsame.lookup _) classpath)

/-- Whether the declarations of all classes of a batch can be read, and stay so when carriers get
factories. -/
structure Declared (conventions : Conventions) (batch : List ClassFile) : Prop where
  stubs : ∀ c ∈ batch, ∃ stub, c.stub = .ok stub
  named : ∀ c ∈ batch, conventions.isLambdaCarrier c.name = true → (FieldType.object c.name).IsNamed

instance (name : String) : Decidable (FieldType.object name).IsNamed :=
  inferInstanceAs (Decidable (_ ∧ _))

instance (conventions : Conventions) (batch : List ClassFile) :
    Decidable (Declared conventions batch) :=
  decidable_of_iff (_ ∧ _) ⟨fun ⟨hstubs, hnamed⟩ => ⟨hstubs, hnamed⟩,
    fun h => ⟨h.stubs, h.named⟩⟩

/-- In particular, what is declared can be read in the beginning. -/
theorem Declared.described (h : Declared conventions batch) : ∀ c ∈ batch, c.Described := by
  intro c hc
  obtain ⟨stub, hstub⟩ := h.stubs c hc
  exact ClassFile.described_of_stub hstub

/-- The classes of a batch when they have been prepared. -/
def preparedClasses (conventions : Conventions) (libraries batch : List ClassFile) :
    List ClassFile :=
  phaseClasses prepare conventions (.ofClasses libraries) batch

theorem kept_prepared (conventions : Conventions) (libraries batch : List ClassFile) :
    List.Forall₂ (Kept conventions) batch (preparedClasses conventions libraries batch) :=
  forall₂_phaseClasses fun c _ =>
    (prepare_keepsAll (surroundings conventions (.ofClasses libraries) batch) c).kept

/-- The declarations of prepared classes can be read. -/
theorem Declared.described_prepared (h : Declared conventions batch) :
    ∀ c ∈ preparedClasses conventions libraries batch, c.Described := by
  intro c hc
  obtain ⟨old, hold, rfl⟩ := List.mem_map.1 hc
  exact described_prepare Scope.seesDescribed_ofBatch (h.named old hold) (h.described old hold)

/-- **What can be seen of a batch when it has been prepared.** -/
theorem Declared.keeps_prepared (h : Declared conventions batch) (libraries : List ClassFile) :
    Scope.Keeps conventions (.ofBatch batch (.ofClasses libraries))
        (.ofBatch (preparedClasses conventions libraries batch) (.ofClasses libraries))
      ∧ ∀ name, (surroundings conventions (.ofClasses libraries)
          (preparedClasses conventions libraries batch)).polyfill? name
        = (surroundings conventions (.ofClasses libraries) batch).polyfill? name :=
  seen_of_kept (kept_prepared conventions libraries batch) h.stubs h.described_prepared _

/-- **What can be seen of a batch when it has been woven.** -/
theorem Declared.keeps_woven (h : Declared conventions batch) (libraries : List ClassFile) :
    Scope.Keeps conventions (.ofBatch batch (.ofClasses libraries))
        (.ofBatch (weave conventions (.ofClasses libraries) batch).classes (.ofClasses libraries))
      ∧ ∀ name, (surroundings conventions (.ofClasses libraries)
          (weave conventions (.ofClasses libraries) batch).classes).polyfill? name
        = (surroundings conventions (.ofClasses libraries) batch).polyfill? name :=
  seen_of_kept (kept_weave conventions _ batch) h.stubs
    (fun _ => described_weave Scope.seesDescribed_ofBatch h.named h.described) _

/-- A woven batch, class by class. Each has gone through three phases, in three scopes. The scope of
a phase is that of all classes when it starts. -/
theorem weave_classes_eq_map (conventions : Conventions) (classpath : ClassIndex)
    (batch : List ClassFile) : (weave conventions classpath batch).classes = batch.map fun old =>
      narrowCarrier (surroundings conventions classpath
          (redirectedClasses conventions classpath batch))
        (redirectCalls (surroundings conventions classpath
            (phaseClasses prepare conventions classpath batch))
          (prepare (surroundings conventions classpath batch) old).1).1 := by
  refine List.ext_getElem? fun i => ?_
  rw [List.getElem?_map]
  cases hold : batch[i]? with
  | none =>
    rw [Option.map_none, List.getElem?_eq_none_iff,
      ← (kept_weave conventions classpath batch).length_eq]
    exact List.getElem?_eq_none_iff.1 hold
  | some old => exact getElem?_weave_of_batch hold

/-- **What can be seen of a batch when its calls have been redirected.** It is what there was
before, with the methods that have been added. -/
theorem Declared.keeps_redirected (h : Declared conventions batch) (libraries : List ClassFile) :
    Scope.Keeps conventions (.ofBatch batch (.ofClasses libraries))
        (.ofBatch (redirectedClasses conventions (.ofClasses libraries) batch)
          (.ofClasses libraries))
      ∧ ∀ name, (surroundings conventions (.ofClasses libraries)
          (redirectedClasses conventions (.ofClasses libraries) batch)).polyfill? name
        = (surroundings conventions (.ofClasses libraries) batch).polyfill? name := by
  refine seen_of_kept (forall₂_redirectedClasses (R := KeepsAll conventions)
    (fun _ _ _ => KeepsAll.trans) (fun c _ =>
      prepare_keepsAll (surroundings conventions (.ofClasses libraries) batch) c)
    (redirectCalls_keepsAll conventions) |>.imp fun _ _ => KeepsAll.kept) h.stubs (fun c hc => ?_) _
  obtain ⟨prepared, hprepared, rfl⟩ := List.mem_map.1 hc
  exact described_of_forall₂ (redirectCalls_rebodied _ prepared) (h.described_prepared prepared
    hprepared)

/-- **What the last two phases do to what can be seen**: no more than narrowing carriers.
Redirecting changes bodies, which cannot be seen. -/
theorem Declared.narrowed_woven (h : Declared conventions batch) (libraries : List ClassFile) :
    Scope.Narrowed conventions
      (.ofBatch (preparedClasses conventions libraries batch) (.ofClasses libraries))
      (.ofBatch (weave conventions (.ofClasses libraries) batch).classes
        (.ofClasses libraries)) := by
  have hstubs : ∀ c ∈ preparedClasses conventions libraries batch, ∃ stub, c.stub = .ok stub := by
    intro c hc
    obtain ⟨old, hold, hkept⟩ := exists_of_mem_right (kept_prepared conventions libraries batch) hc
    obtain ⟨stub, hstub⟩ := h.stubs old hold
    exact hkept.exists_stub (h.described_prepared c hc) hstub
  -- Redirecting leaves stubs as they are, and narrowing does what the relation says.
  have hnarrows : List.Forall₂ (fun old new => ∃ stub stub', old.stub = .ok stub
        ∧ new.stub = .ok stub' ∧ Narrows conventions stub stub')
      (preparedClasses conventions libraries batch)
      (weave conventions (.ofClasses libraries) batch).classes := by
    rw [weave_classes_eq_map, preparedClasses, phaseClasses, List.forall₂_map_left_iff,
      List.forall₂_map_right_iff, List.forall₂_same]
    intro c hc
    obtain ⟨stub, hstub⟩ := hstubs _ (List.mem_map_of_mem hc)
    obtain ⟨stub', hstub', hnarrows⟩ := narrows_narrowCarrier (stub_redirectCalls hstub)
    exact ⟨stub, stub', hstub, hstub', hnarrows⟩
  have hrelates := ClassIndex.relates_of_forall₂ (fun _ _ h => h.name) hnarrows
  refine ⟨Scope.named_ofBatch, ?_, fun name =>
    Scope.rel_lookup_ofBatch (fun stub => .refl stub) (hrelates.lookup name) _⟩
  show (ClassIndex.ofClasses (weave conventions (.ofClasses libraries) batch).classes).size
      + (ClassIndex.ofClasses libraries).size
    = (ClassIndex.ofClasses (preparedClasses conventions libraries batch)).size
      + (ClassIndex.ofClasses libraries).size
  rw [hrelates.size]

end Batch
end Weave
end ClassLoom
