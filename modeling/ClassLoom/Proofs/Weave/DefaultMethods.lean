import ClassLoom.Proofs.Weave.WovenScope

/-!
# Default methods of woven classes

A woven class has the default methods of its interfaces: as methods of its own, as inherited
ones, or it is reported that it lacks them. Forwarders are computed from what can be seen when
weaving starts, though, and the phases change that: a lambda carrier gets an interface and a
factory and loses its old ones. What a class lacks for that reason is told by `Unforwarded`.

* `KeepsSignatures.declaresStatic`, `Kept.declares`: methods through weaving;
* `declares_or_unforwarded`: which default methods a woven class has.
-/

namespace ClassLoom

namespace Weave

open Redirection (declaresStatic)

/-! ## Methods through weaving

What a class has declared it goes on declaring, and what is new belongs to lambda carriers. -/

section Signatures

variable {conventions : Conventions} {old new : ClassStub}

/-- Methods without bodies are none that have been added. -/
theorem KeepsSignatures.mem_of_isAbstract (h : KeepsSignatures conventions old new)
    {m : MethodStub} (hm : m ∈ new.methods) (habstract : m.isAbstract = true) :
    m ∈ old.methods := by
  obtain ⟨kept, added, hsplit, hkept, hadded⟩ := h.methods
  rw [hsplit] at hm
  rcases List.mem_append.1 hm with hm | hm
  · rcases hkept with rfl | ⟨_, rfl⟩
    · exact hm
    · exact (List.mem_filter.1 hm).1
  · rw [(hadded m hm).hasBody] at habstract
    cases habstract

/-- Methods stay, but for the old factories of a carrier. -/
theorem KeepsSignatures.mem_or_isLambdaCarrier (h : KeepsSignatures conventions old new)
    {m : MethodStub} (hm : m ∈ old.methods) : m ∈ new.methods
      ∨ conventions.isLambdaCarrier old.name = true ∧ m.name = conventions.lambdaFactory := by
  obtain ⟨kept, added, hsplit, hkept, _⟩ := h.methods
  rw [hsplit]
  rcases hkept with rfl | ⟨hcarrier, rfl⟩
  · exact .inl (List.mem_append_left _ hm)
  · by_cases hname : m.name = conventions.lambdaFactory
    · exact .inr ⟨hcarrier, hname⟩
    · exact .inl (List.mem_append_left _ (List.mem_filter.2 ⟨hm, by simpa using hname⟩))

/-- A static method that takes arguments has been there, or is the new factory of a carrier. A
forwarder is no static method, and a new initializer takes no arguments. -/
theorem KeepsSignatures.isStatic_or_isLambdaCarrier (h : KeepsSignatures conventions old new)
    {name descriptor : String} (harguments : descriptor ≠ "()V")
    (hstatic : ((new.method? name descriptor).map (·.isStatic)).getD false = true) :
    ((old.method? name descriptor).map (·.isStatic)).getD false = true
      ∨ conventions.isLambdaCarrier old.name = true ∧ name = conventions.replacementFactory := by
  obtain ⟨kept, added, hsplit, hkept, hadded⟩ := h.methods
  cases hfound : new.method? name descriptor with
  | none =>
    rw [hfound] at hstatic
    cases hstatic
  | some m =>
    rw [hfound] at hstatic
    have hstatic : m.isStatic = true := hstatic
    have hmatches := List.find?_some hfound
    simp only [Bool.and_eq_true, decide_eq_true_eq] at hmatches
    obtain ⟨rfl, rfl⟩ := hmatches
    unfold ClassStub.method? at hfound ⊢
    rw [hsplit, List.find?_append] at hfound
    -- The first method of the name and descriptor is one from before, or one that has been added.
    cases hfront : kept.find? fun m' => m'.name = m.name && m'.descriptor = m.descriptor with
    | some first =>
      rw [hfront] at hfound
      cases hfound
      refine .inl ?_
      rcases hkept with rfl | ⟨_, rfl⟩
      · rw [hfront]
        exact hstatic
      · -- No method of the name has been taken away.
        have hname : m.name ≠ conventions.lambdaFactory := by
          have hmem := (List.mem_filter.1 (List.mem_of_find?_eq_some hfront)).2
          simpa using hmem
        have hsame : (fun m' : MethodStub => decide ((m'.name ≠ conventions.lambdaFactory : Bool)
            ∧ (m'.name = m.name && m'.descriptor = m.descriptor : Bool)))
            = fun m' => m'.name = m.name && m'.descriptor = m.descriptor := by
          funext m'
          by_cases hname' : m'.name = m.name
          · simp [hname', hname]
          · simp [hname']
        rw [List.find?_filter, hsame] at hfront
        rw [hfront]
        exact hstatic
    | none =>
      rw [hfront] at hfound
      obtain ⟨hcarrier, hname | hdescriptor⟩ :=
        (hadded m (List.mem_of_find?_eq_some hfound)).static hstatic
      · exact .inr ⟨hcarrier, hname⟩
      · exact absurd hdescriptor harguments

end Signatures

/-- A class declares what it has declared, but for the old factories of a carrier. These are taken
away when the carrier is narrowed. -/
theorem Kept.declares {conventions : Conventions} {old new : ClassFile}
    (h : Kept conventions old new) {name descriptor : String}
    (hdeclares : old.Declares name descriptor) : new.Declares name descriptor
      ∨ conventions.isLambdaCarrier old.name = true ∧ name = conventions.lambdaFactory := by
  obtain ⟨m, hm, rfl, rfl⟩ := hdeclares
  rcases h.methods with hall | ⟨hcarrier, hrest⟩
  · obtain ⟨m', hm', hsame⟩ := hall.exists_of_mem hm
    exact .inl ⟨m', hm', hsame.name, hsame.descriptor⟩
  · by_cases hname : m.name = conventions.lambdaFactory
    · exact .inr ⟨hcarrier, hname⟩
    · obtain ⟨m', hm', hsame⟩ :=
        hrest.exists_of_mem (List.mem_filter.2 ⟨hm, by simpa using hname⟩)
      exact .inl ⟨m', hm', hsame.name, hsame.descriptor⟩

/-- Static methods that take the receiver take an argument. -/
theorem Forwarder.withReceiver_ne (interfaceName descriptor : String) :
    withReceiver interfaceName descriptor ≠ "()V" := by
  intro h
  have h := congrArg String.toList h
  unfold withReceiver at h
  simp only [String.toList_append] at h
  revert h
  simp

section Keeps

variable {conventions : Conventions} {before after : Scope}

/-- A default method that can be seen after weaving had a forwarder before, unless the method of the
companion is the new factory of a carrier. -/
theorem exists_mem_ofInterface (hkeeps : before.Keeps conventions after) (hnamed : before.Named)
    {interfaceName : String} {stub : ClassStub} (hstub : after.lookup interfaceName = some stub)
    {m : MethodStub} (hm : m ∈ stub.methods) (habstract : m.isAbstract = true)
    (hstatic : m.isStatic = false)
    (hcompanion : declaresStatic { scope := after, conventions }
      (conventions.companionName interfaceName) m.name
      (Forwarder.withReceiver interfaceName m.descriptor) = true) :
    (∃ f ∈ Forwarder.ofInterface { scope := before, conventions } interfaceName,
        f.name = m.name ∧ f.descriptor = m.descriptor)
      ∨ conventions.isLambdaCarrier (conventions.companionName interfaceName) = true
        ∧ m.name = conventions.replacementFactory := by
  -- The interface had the method before, since all methods that are added have bodies.
  obtain ⟨old, hold, hsignatures⟩ := hkeeps.exists_lookup hstub
  have hm := hsignatures.mem_of_isAbstract hm habstract
  unfold declaresStatic at hcompanion
  cases hfound : after.lookup (conventions.companionName interfaceName) with
  | none =>
    rw [hfound] at hcompanion
    cases hcompanion
  | some companion =>
    rw [hfound] at hcompanion
    obtain ⟨oldCompanion, holdCompanion, hcompanionSignatures⟩ := hkeeps.exists_lookup hfound
    rcases hcompanionSignatures.isStatic_or_isLambdaCarrier (Forwarder.withReceiver_ne _ _)
      hcompanion with htarget | hcarrier
    · refine .inl ⟨_, Forwarder.mem_ofInterface.2
        ⟨old, oldCompanion, m, hold, holdCompanion, hm, habstract, hstatic, htarget, rfl⟩, rfl, rfl⟩
    · rw [hnamed _ _ holdCompanion] at hcarrier
      exact .inr hcarrier

/-- A method that is inherited with a body is so after weaving, but for the old factories of
carriers. -/
theorem inheritsBody_or_isLambdaCarrier (hkeeps : before.Keeps conventions after)
    {className name descriptor : String} (h : InheritsBody before className name descriptor) :
    InheritsBody after className name descriptor
      ∨ ∃ carrier ∈ (before.superclasses className).map (·.name),
        conventions.isLambdaCarrier carrier = true ∧ name = conventions.lambdaFactory := by
  obtain ⟨parent, hparent, m, hm, hbody, hname, hdescriptor⟩ := h
  obtain ⟨parent', hparent', hsignatures⟩ :=
    exists_of_mem_left (List.forall₂_drop 1 (hkeeps.forall₂_superclasses className)) hparent
  rcases hsignatures.mem_or_isLambdaCarrier hm with hm' | ⟨hcarrier, hfactory⟩
  · exact .inl ⟨parent', hparent', m, hm', hbody, hname, hdescriptor⟩
  · refine .inr ⟨parent.name, ?_, hcarrier, hname ▸ hfactory⟩
    exact List.mem_map_of_mem (List.mem_of_mem_drop hparent)

end Keeps

/-- What becomes of a forwarder that was computed for a class when weaving started. It is in the
class, or was a factory of the old name, or its body is inherited, or it is reported. -/
theorem declares_or_reported_weave {conventions : Conventions} {classpath : ClassIndex}
    {batch : List ClassFile} {new : ClassFile}
    (hnew : new ∈ (weave conventions classpath batch).classes) (hclass : new.isInterface = false)
    {interfaceName : String}
    (hinterface : interfaceName ∈ (Scope.ofBatch batch classpath).interfaceClosure new.name)
    {f : Forwarder} (hf : f ∈ Forwarder.ofInterface
      { scope := .ofBatch batch classpath, conventions } interfaceName) :
    new.Declares f.name f.descriptor
      ∨ conventions.isLambdaCarrier new.name = true ∧ f.name = conventions.lambdaFactory
      ∨ InheritsBody (.ofBatch batch classpath) new.name f.name f.descriptor
      ∨ ∃ message, .malformed (.ofMethod new.name f.name f.descriptor) message
        ∈ (weave conventions classpath batch).diagnostics := by
  obtain ⟨k, hk⟩ := List.mem_iff_getElem?.1 hnew
  obtain ⟨old, prepared, s, hold, hprepared, _, rfl, hend⟩ := getElem?_weave hk
  -- A method that preparing gives stays through the other phases, unless it is an old factory.
  have hrest : Kept s.conventions prepared new := by
    rw [hend]
    exact (redirectCalls_keepsAll _ _ prepared).trans_kept (narrowCarrier_kept s _)
  have hfirst := prepare_keepsAll (surroundings s.conventions classpath batch) old
  rw [← hprepared] at hfirst
  have houtline := (hfirst.trans_kept hrest).outline
  have hclass : old.isInterface = false := houtline.isInterface_eq ▸ hclass
  rw [houtline.name] at hinterface ⊢
  have hgets := declares_or_reported_prepare
    (s := surroundings s.conventions classpath batch) hclass hinterface hf
  rw [← hprepared] at hgets
  rcases hgets with hdeclares | hinherits | ⟨message, hreported⟩
  · rcases hrest.declares hdeclares with hdeclares | ⟨hcarrier, hfactory⟩
    · exact .inl hdeclares
    · rw [hfirst.outline.name] at hcarrier
      exact .inr (.inl ⟨hcarrier, hfactory⟩)
  · exact .inr (.inr (.inl hinherits))
  · refine .inr (.inr (.inr ⟨message, ?_⟩))
    exact mem_weave_diagnostics_of_prepare (List.mem_of_getElem? hold) hreported

/-! ## Which default methods a class has

The exceptions are listed one by one, and each comes from a lambda carrier. -/

/-- Why a class of a woven batch can lack a default method of an interface. -/
inductive Unforwarded (conventions : Conventions) (batch : List ClassFile) (before after : Scope)
    (className interfaceName : String) (m : MethodStub) : Prop where
  /-- The class has got the interface when forwarders had been computed already, since a lambda
  carrier of its lineage has. -/
  | gained (hnew : interfaceName ∉ before.interfaceClosure className) {carrier : String}
    (hlineage : carrier ∈ before.lineage className)
    (hcarrier : conventions.isLambdaCarrier carrier = true)
    (hchanged : after.interfacesOf carrier ≠ before.interfacesOf carrier)
  /-- A lambda carrier had a method of that name, and has lost it as its old factory. -/
  | lostFactory (hname : m.name = conventions.lambdaFactory) {carrier : String}
    (hlineage : carrier = className ∨ carrier ∈ (before.superclasses className).map (·.name))
    (hcarrier : conventions.isLambdaCarrier carrier = true)
  /-- The companion is a lambda carrier, and has got the method as its new factory. -/
  | newFactory (hname : m.name = conventions.replacementFactory)
    (hcarrier : conventions.isLambdaCarrier (conventions.companionName interfaceName) = true)
  /-- A lambda carrier of the batch has a name with which descriptors cannot be read. -/
  | unnamed {c : ClassFile} (hc : c ∈ batch)
    (hcarrier : conventions.isLambdaCarrier c.name = true)
    (hname : ¬ (FieldType.object c.name).IsNamed)

/-- **Which default methods a woven class has.** A class that has an interface, with a method
without a body that the companion of the interface implements, declares the method, inherits it
with a body, or is reported to lack it; or what can be seen has changed after forwarders had been
computed. -/
theorem declares_or_unforwarded {conventions : Conventions} {batch libraries : List ClassFile}
    (hstubs : ∀ c ∈ batch, ∃ stub, c.stub = .ok stub) {woven : Woven}
    (hwoven : woven = weave conventions (.ofClasses libraries) batch) {before after : Scope}
    (hbefore : before = .ofBatch batch (.ofClasses libraries))
    (hafter : after = .ofBatch woven.classes (.ofClasses libraries)) {new : ClassFile}
    (hnew : new ∈ woven.classes) (hclass : new.isInterface = false) {interfaceName : String}
    (hinterface : interfaceName ∈ after.interfaceClosure new.name) {stub : ClassStub}
    (hstub : after.lookup interfaceName = some stub) {m : MethodStub} (hm : m ∈ stub.methods)
    (habstract : m.isAbstract = true) (hstatic : m.isStatic = false)
    (hcompanion : declaresStatic { scope := after, conventions }
      (conventions.companionName interfaceName) m.name
      (Forwarder.withReceiver interfaceName m.descriptor) = true) :
    new.Declares m.name m.descriptor
      ∨ InheritsBody after new.name m.name m.descriptor
      ∨ (∃ message, .malformed (.ofMethod new.name m.name m.descriptor) message
        ∈ woven.diagnostics)
      ∨ Unforwarded conventions batch before after new.name interfaceName m := by
  by_cases hnamed : ∀ c ∈ batch, conventions.isLambdaCarrier c.name = true →
      (FieldType.object c.name).IsNamed
  · have hkeeps : before.Keeps conventions after := by
      rw [hafter, hbefore, hwoven]
      exact keeps_weave hnamed hstubs
    have hnames : before.Named := hbefore ▸ Scope.named_ofBatch
    by_cases hhad : interfaceName ∈ before.interfaceClosure new.name
    · -- A forwarder was computed, if the companion had the method.
      rcases exists_mem_ofInterface hkeeps hnames hstub hm habstract hstatic hcompanion with
        ⟨f, hf, hname, hdescriptor⟩ | ⟨hcarrier, hname⟩
      · subst hbefore hwoven
        have hgets := declares_or_reported_weave hnew hclass hhad hf
        rw [hname, hdescriptor] at hgets
        rcases hgets with hdeclares | ⟨hcarrier, hfactory⟩ | hinherits | hreported
        · exact .inl hdeclares
        · exact .inr (.inr (.inr (.lostFactory hfactory (.inl rfl) hcarrier)))
        · rcases inheritsBody_or_isLambdaCarrier hkeeps hinherits with
            hinherits | ⟨carrier, hlineage, hcarrier, hfactory⟩
          · exact .inr (.inl hinherits)
          · exact .inr (.inr (.inr (.lostFactory hfactory (.inr hlineage) hcarrier)))
        · exact .inr (.inr (.inl hreported))
      · exact .inr (.inr (.inr (.newFactory hname hcarrier)))
    · -- The interface is new.
      rcases hkeeps.interfaceClosure_eq_or_changed hnames new.name with
        hsame | ⟨carrier, hlineage, hcarrier, hchanged⟩
      · exact absurd (hsame ▸ hinterface) hhad
      · exact .inr (.inr (.inr (.gained hhad hlineage hcarrier hchanged)))
  · push Not at hnamed
    obtain ⟨c, hc, hcarrier, hname⟩ := hnamed
    exact .inr (.inr (.inr (.unnamed hc hcarrier hname)))

/-- A lambda carrier with the interface `I`, whose factory takes an `int`. -/
def carrierOfI : Bytes :=
  [202, 254, 186, 190, 0, 0, 0, 50, 0, 17, 1, 0, 11, 65, 36, 36, 76, 97, 109, 98, 100, 97, 36,
   49, 7, 0, 1, 1, 0, 16, 106, 97, 118, 97, 47, 108, 97, 110, 103, 47, 79, 98, 106, 101, 99,
   116, 7, 0, 3, 1, 0, 1, 73, 7, 0, 5, 1, 0, 6, 60, 105, 110, 105, 116, 62, 1, 0, 3, 40, 41,
   86, 12, 0, 7, 0, 8, 10, 0, 4, 0, 9, 1, 0, 4, 40, 73, 41, 86, 1, 0, 4, 67, 111, 100, 101,
   12, 0, 7, 0, 11, 10, 0, 2, 0, 13, 1, 0, 14, 108, 97, 109, 98, 100, 97, 70, 97, 99, 116,
   111, 114, 121, 36, 1, 0, 6, 40, 73, 41, 76, 73, 59, 0, 32, 0, 2, 0, 4, 0, 1, 0, 6, 0, 0, 0,
   2, 0, 2, 0, 7, 0, 11, 0, 1, 0, 12, 0, 0, 0, 17, 0, 1, 0, 2, 0, 0, 0, 5, 42, 183, 0, 10,
   177, 0, 0, 0, 0, 0, 8, 0, 15, 0, 16, 0, 1, 0, 12, 0, 0, 0, 21, 0, 3, 0, 1, 0, 0, 0, 9, 187,
   0, 2, 89, 26, 183, 0, 14, 176, 0, 0, 0, 0, 0, 0]

/-- The polyfill of `I`: an interface with a method `m` without a body. -/
def polyfillOfI : Bytes :=
  [202, 254, 186, 190, 0, 0, 0, 50, 0, 7, 1, 0, 4, 114, 47, 95, 73, 7, 0, 1, 1, 0, 16, 106,
   97, 118, 97, 47, 108, 97, 110, 103, 47, 79, 98, 106, 101, 99, 116, 7, 0, 3, 1, 0, 1, 109,
   1, 0, 3, 40, 41, 86, 6, 1, 0, 2, 0, 4, 0, 0, 0, 0, 0, 1, 4, 1, 0, 5, 0, 6, 0, 0, 0, 0]

/-- The companion of the polyfill, which implements `m`. -/
def companionOfPolyfill : Bytes :=
  [202, 254, 186, 190, 0, 0, 0, 50, 0, 8, 1, 0, 5, 114, 47, 95, 73, 36, 7, 0, 1, 1, 0, 16,
   106, 97, 118, 97, 47, 108, 97, 110, 103, 47, 79, 98, 106, 101, 99, 116, 7, 0, 3, 1, 0, 1,
   109, 1, 0, 9, 40, 76, 114, 47, 95, 73, 59, 41, 86, 1, 0, 4, 67, 111, 100, 101, 0, 33, 0, 2,
   0, 4, 0, 0, 0, 0, 0, 1, 0, 9, 0, 5, 0, 6, 0, 1, 0, 7, 0, 0, 0, 13, 0, 0, 0, 1, 0, 0, 0, 1,
   177, 0, 0, 0, 0, 0, 0]

/-- The carrier gets the polyfill as an interface, and no forwarder for the method that the
companion of the polyfill implements. -/
theorem declares_or_unforwarded_gained : ∃ conventions carrier polyfill companion,
    polyfillsInR.conventions = .ok conventions ∧ ClassFile.parse carrierOfI = .ok carrier
      ∧ ClassFile.parse polyfillOfI = .ok polyfill
      ∧ ClassFile.parse companionOfPolyfill = .ok companion
      ∧ let classpath := ClassIndex.ofClasses [polyfill, companion]
        let woven := weave conventions classpath [carrier]
        let after := Scope.ofBatch woven.classes classpath
        ∃ new stub m, woven.classes = [new] ∧ woven.diagnostics = [] ∧ new.isInterface = false
          ∧ "r/_I" ∈ after.interfaceClosure new.name ∧ after.lookup "r/_I" = some stub
          ∧ m ∈ stub.methods ∧ m.isAbstract = true ∧ m.isStatic = false
          ∧ declaresStatic { scope := after, conventions } (conventions.companionName "r/_I") m.name
            (Forwarder.withReceiver "r/_I" m.descriptor) = true
          ∧ ¬ new.Declares m.name m.descriptor ∧ ¬ InheritsBody after new.name m.name m.descriptor
          ∧ Unforwarded conventions [carrier] (.ofBatch [carrier] classpath) after new.name "r/_I"
            m := by
  have hevaluated : (do
      let conventions ← polyfillsInR.conventions.toOption
      let carrier ← (ClassFile.parse carrierOfI).toOption
      let polyfill ← (ClassFile.parse polyfillOfI).toOption
      let companion ← (ClassFile.parse companionOfPolyfill).toOption
      let classpath := ClassIndex.ofClasses [polyfill, companion]
      let woven := weave conventions classpath [carrier]
      let after := Scope.ofBatch woven.classes classpath
      let new ← woven.classes.head?
      let stub ← after.lookup "r/_I"
      let m ← stub.methods.head?
      return decide ((∃ stub, carrier.stub = .ok stub) ∧ woven.classes.length = 1
        ∧ woven.diagnostics = [] ∧ new.isInterface = false
        ∧ "r/_I" ∈ after.interfaceClosure new.name ∧ m.isAbstract = true ∧ m.isStatic = false
        ∧ declaresStatic { scope := after, conventions } (conventions.companionName "r/_I") m.name
          (Forwarder.withReceiver "r/_I" m.descriptor) = true
        ∧ ¬ new.Declares m.name m.descriptor
        ∧ ¬ InheritsBody after new.name m.name m.descriptor)) = some true := by
    decide +kernel
  simp only [toOption_bind_eq_some] at hevaluated
  obtain ⟨conventions, hconventions, carrier, hcarrier, polyfill, hpolyfill, companion, hcompanion,
    hwoven⟩ := hevaluated
  obtain ⟨new, hnew, hwoven⟩ := Option.bind_eq_some_iff.1 hwoven
  obtain ⟨stub, hstub, hwoven⟩ := Option.bind_eq_some_iff.1 hwoven
  obtain ⟨m, hm, hchecked⟩ := Option.bind_eq_some_iff.1 hwoven
  obtain ⟨hcarrierStub, hone, hdiagnostics, hclass, hinterface, habstract, hstatic, htarget, hlacks,
    hinherits⟩ := of_decide_eq_true (Option.some.inj hchecked)
  have hm := List.mem_of_head? hm
  refine ⟨conventions, carrier, polyfill, companion, hconventions, hcarrier, hpolyfill, hcompanion,
    new, stub, m, eq_singleton_of_head? hone hnew, hdiagnostics, hclass, hinterface, hstub, hm,
    habstract, hstatic, htarget, hlacks, hinherits, ?_⟩
  -- Three of the four outcomes are ruled out by evaluation.
  rcases declares_or_unforwarded (List.forall_mem_singleton.2 hcarrierStub) rfl rfl rfl
    (List.mem_of_head? hnew) hclass hinterface hstub hm habstract hstatic htarget with
    hdeclares | hinherited | ⟨message, hreported⟩ | hunforwarded
  · exact absurd hdeclares hlacks
  · exact absurd hinherited hinherits
  · rw [hdiagnostics] at hreported
    cases hreported
  · exact hunforwarded

end Weave
end ClassLoom
