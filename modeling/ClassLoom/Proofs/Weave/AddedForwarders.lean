import Mathlib.Data.List.Perm.Subperm
import ClassLoom.Proofs.ConstantPool.Symbols
import ClassLoom.Proofs.Scope.InterfaceOrder
import ClassLoom.Proofs.Weave.ForwarderBody
import ClassLoom.Proofs.Weave.GainedMethods

/-!
# The forwarders that a class gets

A class gets a method for every default method that it lacks and for nothing else, where there is
room for the calls (`CompanionsFit`). The exceptions are methods with so many parameters that a
forwarder does not fit a body: those are reported. Forwarders are not looked for a second time where
the class has got them, so adding them again changes nothing.

* `companionsFit_of_room`: six slots for each call are enough;
* `Forwarder.exists_added_foldl`: what becomes of a row of forwarders;
* `addForwarders_exactly`: which methods a class gets;
* `addForwarders_leaves_out`: what it does not get, although it lacks it.
-/

namespace ClassLoom.Weave

open ConstantPool

/-- Whether there is room in the pool for the calls of all forwarders, each after those before it
have been added. -/
def CompanionsFit (c : ClassFile) : List Forwarder → Prop
  | [] => True
  | f :: rest =>
    (∃ made, (internMethod f.companion f.name f.companionDescriptor false).on c.pool = .ok made)
      ∧ CompanionsFit (Forwarder.addTo (c, []) f).1 rest

instance decidableCompanionsFit (c : ClassFile) : (fs : List Forwarder) →
    Decidable (CompanionsFit c fs)
  | [] => .isTrue trivial
  | f :: rest =>
    have := decidableCompanionsFit (Forwarder.addTo (c, []) f).1 rest
    inferInstanceAs (Decidable (_ ∧ _))

/-! ## Room for the calls

The call of a companion takes at most six slots of the pool. So the symbols of some ten thousand
forwarders fit into it. -/

/-- The pool of a class grows by the call of a forwarder at most. That is one entry for the method,
one for its class, one for its name and type, and three texts. -/
theorem size_addTo_le {c : ClassFile} (f : Forwarder) (hroom : c.pool.size + 6 ≤ 65535) :
    (Forwarder.addTo (c, []) f).1.pool.size ≤ c.pool.size + 6 := by
  rcases addTo_cases c [] f with ⟨hsame, _⟩ | ⟨m, pool, hmethod, hnew⟩
  · rw [hsame]
    exact Nat.le_add_right ..
  · rw [hnew]
    obtain ⟨target, mid, htarget, hmethod⟩ := Interning.bind_eq_ok.1 hmethod
    obtain ⟨bytecode, _, hset⟩ := Interning.lift_bind_eq_ok.1 hmethod
    -- Writing a body without attributes takes no slots.
    obtain ⟨info, hinfo, _⟩ := Member.setCode_eq_ok hset
    obtain ⟨_, count, attributes, _, hattributes, _⟩ := Code.bytes_eq_ok hinfo
    cases hattributes
    obtain ⟨target', mid', htarget', hle⟩ :=
      takesSlots_internMethod f.companion f.name f.companionDescriptor false c.pool hroom
    rw [htarget] at htarget'
    cases htarget'
    exact hle

/-- **Six slots for each call are enough.** -/
theorem companionsFit_of_room {c : ClassFile} {fs : List Forwarder}
    (hroom : c.pool.size + 6 * fs.length ≤ 65535) : CompanionsFit c fs := by
  induction fs generalizing c with
  | nil => exact trivial
  | cons f rest ih =>
    rw [List.length_cons] at hroom
    obtain ⟨target, pool', htarget, _⟩ := takesSlots_internMethod f.companion f.name
      f.companionDescriptor false c.pool (by omega)
    have hle := size_addTo_le f (c := c) (by omega)
    exact ⟨⟨_, Interning.on_eq_ok.2 htarget⟩, ih (by omega)⟩

/-! ## Rows of forwarders

Forwarders are added one after the other. One that cannot be made is reported, and the others do not
depend on it. -/

namespace Forwarder

theorem addTo_fst (c : ClassFile) (ds : List Diagnostic) (f : Forwarder) :
    (addTo (c, ds) f).1 = (addTo (c, []) f).1 := by
  simp only [addTo]
  cases f.method.on c.pool <;> rfl

/-- **What becomes of a row of forwarders.** They are public methods behind those of the class;
where there is room for the calls, the class gets all whose bodies fit. -/
theorem exists_added_foldl (fs : List Forwarder) (c : ClassFile) (ds : List Diagnostic) :
    ∃ added, (fs.foldl addTo (c, ds)).1.methods = c.methods ++ added
      ∧ (∀ m ∈ added, m.access = Access.publicFlag)
      ∧ (CompanionsFit c fs →
        added.map Member.key = (fs.filter fun f => bodyLength f.parsed ≤ 65535).map key) := by
  induction fs generalizing c ds with
  | nil => exact ⟨[], (List.append_nil _).symm, nofun, fun _ => rfl⟩
  | cons f rest ih =>
    obtain ⟨added, hmethods, haccess, hkeys⟩ := ih (addTo (c, ds) f).1 (addTo (c, ds) f).2
    rw [List.foldl_cons]
    rcases addTo_cases c ds f with ⟨hsame, hnone⟩ | ⟨m, pool, hmethod, hnew⟩
    · refine ⟨added, by rw [hmethods, hsame], haccess, fun hfit => ?_⟩
      -- There was room for the call, so it is the body that does not fit.
      obtain ⟨⟨⟨target, mid⟩, htarget⟩, hrest⟩ := hfit
      have hlong : ¬ bodyLength f.parsed ≤ 65535 := by
        intro hfits
        obtain ⟨m, pool, hmethod⟩ :=
          exists_method_iff.2 ⟨⟨target, mid, Interning.on_eq_ok.1 htarget⟩, hfits⟩
        exact hnone m pool hmethod
      rw [hkeys (addTo_fst c ds f ▸ hrest), List.filter_cons_of_neg (by simpa using hlong)]
    · obtain ⟨info, hm⟩ := f.eq_of_method hmethod
      have hfits : bodyLength f.parsed ≤ 65535 := (exists_method_iff.1 ⟨m, pool, hmethod⟩).2
      refine ⟨m :: added, ?_, List.forall_mem_cons.2 ⟨by rw [hm], haccess⟩, fun hfit => ?_⟩
      · rw [hmethods, hnew, List.append_assoc]
        rfl
      · rw [List.map_cons, hkeys (addTo_fst c ds f ▸ hfit.2),
          List.filter_cons_of_pos (by simpa using hfits), List.map_cons, hm]
        rfl

end Forwarder

section Class

variable {s : Surroundings} {c : ClassFile}

/-- Forwarders are added behind the methods of a class. -/
theorem exists_added (s : Surroundings) (c : ClassFile) :
    ∃ added, (addForwarders s c).1.methods = c.methods ++ added
      ∧ ∀ m ∈ added, m.access = Access.publicFlag := by
  unfold addForwarders
  split
  · exact ⟨[], (List.append_nil _).symm, nofun⟩
  · obtain ⟨added, hmethods, haccess, _⟩ :=
      Forwarder.exists_added_foldl (Forwarder.needed s c) c []
    exact ⟨added, hmethods, haccess⟩

/-- A class with forwarders has a stub with as many more methods, none of which is abstract or
static. -/
theorem gains_addForwarders (hscope : SeesDescribed s.scope) {stub : ClassStub}
    (hstub : c.stub = .ok stub) :
    ∃ stub', (addForwarders s c).1.stub = .ok stub' ∧ stub.Gains stub' := by
  have hdescribed := described_addForwarders hscope (ClassFile.described_of_stub hstub)
  have hgrown := (addForwarders_extends s c).pool.grown
  obtain ⟨added, hadded, haccess⟩ := exists_added s c
  obtain ⟨methods', pool, hnew⟩ := addForwarders_onlyMethods s c
  rw [hnew] at hdescribed hgrown hadded ⊢
  obtain ⟨annotations, methods, hannotations, hmethods, rfl⟩ := ClassFile.stub_eq_ok.1 hstub
  have hannotations' := ClassFile.annotations_grown hgrown rfl hannotations
  obtain ⟨stub', hstub'⟩ := ClassFile.exists_stub_iff.2 ⟨⟨annotations, hannotations'⟩, hdescribed⟩
  refine ⟨stub', hstub', ?_⟩
  obtain ⟨found, signatures, hfound, hsignatures, rfl⟩ := ClassFile.stub_eq_ok.1 hstub'
  cases hannotations'.symm.trans hfound
  -- The signatures of the methods that the class had come first, and are the same.
  rw [hadded] at hsignatures
  obtain ⟨front, back, rfl, hfront, hback⟩ := exists_of_forall₂_append hsignatures
  cases (mapM_eq_ok.2 hmethods).symm.trans (mapM_eq_ok.2 hfront)
  refine ⟨back, rfl, fun m' hm' => ?_⟩
  obtain ⟨m, hm, hread⟩ := exists_of_mem_right hback hm'
  obtain ⟨d, _, rfl⟩ := MethodStub.ofMember_eq_ok.1 hread
  unfold MethodStub.isAbstract MethodStub.isStatic
  simp only [haccess m hm]
  decide

/-- **Which forwarders are reported**: those for methods that a class lacks and does not get. -/
theorem reported_of_lacksDefault (hclass : c.isInterface = false) {name descriptor : String}
    (hlacks : LacksDefault s c name descriptor)
    (hnone : ¬ (addForwarders s c).1.Declares name descriptor) :
    ∃ message, .malformed (.ofMethod c.name name descriptor) message
      ∈ (addForwarders s c).2 := by
  obtain ⟨f, hf, hkey⟩ := List.mem_map.1 (mem_keys_needed_iff.2 hlacks)
  cases hkey
  exact (declares_or_reported hclass hf).resolve_left hnone

end Class

/-! ## What a class gets

Exactly the default methods that it lacks, as far as their bodies fit the format. -/

/-- The methods that a class gets are those that it lacks, as far as forwarders for them can be
made. -/
theorem mem_keys_added_iff {s : Surroundings} {c : ClassFile} (hscope : SeesDescribed s.scope)
    {added : List Member} (hkeys : added.map Member.key
      = ((Forwarder.needed s c).filter fun f => bodyLength f.parsed ≤ 65535).map Forwarder.key)
    {name descriptor : String} : (name, descriptor) ∈ added.map Member.key
      ↔ LacksDefault s c name descriptor ∧ BodyFits descriptor := by
  rw [hkeys, ← mem_keys_needed_iff]
  constructor
  · intro h
    obtain ⟨f, hf, hkey⟩ := List.mem_map.1 h
    obtain ⟨hf, hfits⟩ := List.mem_filter.1 hf
    refine ⟨List.mem_map.2 ⟨f, hf, hkey⟩, ?_⟩
    cases hkey
    exact (bodyFits_iff (parse_of_mem_needed hscope hf)).2 (of_decide_eq_true hfits)
  · rintro ⟨hneeded, hfits⟩
    obtain ⟨f, hf, hkey⟩ := List.mem_map.1 hneeded
    refine List.mem_map.2 ⟨f, List.mem_filter.2 ⟨hf, ?_⟩, hkey⟩
    cases hkey
    exact decide_eq_true ((bodyFits_iff (parse_of_mem_needed hscope hf)).1 hfits)

/-- **Forwarders are not added again**, where the class that has got them is seen. It declares by
then what it lacked. -/
theorem addForwarders_again {conventions : Conventions} {before after : Scope} {c c' : ClassFile}
    (hgains : before.Gains after) (hafter : SeesDescribed after) (hname : c'.name = c.name)
    (hmethods : c.methods ⊆ c'.methods)
    (hgot : ∀ name descriptor, LacksDefault { scope := before, conventions } c name descriptor →
      BodyFits descriptor → c'.Declares name descriptor) :
    (addForwarders { scope := after, conventions } c').1 = c' := by
  refine addForwarders_eq_self_iff.2 fun _ f hf m pool hmethod => ?_
  have hlacks : LacksDefault { scope := after, conventions } c' f.name f.descriptor :=
    mem_keys_needed_iff.1 (List.mem_map.2 ⟨f, hf, rfl⟩)
  have hfits : BodyFits f.descriptor := (bodyFits_iff (parse_of_mem_needed hafter hf)).2
    (Forwarder.exists_method_iff.1 ⟨m, pool, hmethod⟩).2
  exact hlacks.undeclared (hgot _ _ (hlacks.of_gains hgains hname hmethods) hfits)

section Batch

variable {conventions : Conventions} {batch libraries : List ClassFile} {c : ClassFile}

/-- **Which methods a class gets.** A class that is no interface gets one method for each name and
descriptor that an interface offers and that it neither declares nor inherits with a body, if the
body fits; otherwise that is reported. Adding forwarders once more, with the class as it is then in
the place of the one before, changes nothing. -/
theorem addForwarders_exactly {s : Surroundings}
    (hs : s = surroundings conventions (.ofClasses libraries) batch)
    (hclass : c.isInterface = false) {stub : ClassStub} (hstub : c.stub = .ok stub)
    (hfit : CompanionsFit c (Forwarder.needed s c)) :
    ∃ c' diagnostics added, addForwarders s c = (c', diagnostics)
      ∧ c'.methods = c.methods ++ added ∧ (added.map Member.key).Nodup
      ∧ (∀ name descriptor, (name, descriptor) ∈ added.map Member.key
        ↔ LacksDefault s c name descriptor ∧ BodyFits descriptor)
      ∧ (∀ name descriptor, LacksDefault s c name descriptor → ¬ BodyFits descriptor →
        ∃ message, .malformed (.ofMethod c.name name descriptor) message ∈ diagnostics)
      ∧ ∀ front back, batch = front ++ c :: back → (addForwarders
        (surroundings conventions (.ofClasses libraries) (front ++ c' :: back)) c').1 = c' := by
  have hscope : SeesDescribed s.scope := by
    rw [hs]
    exact Scope.seesDescribed_ofBatch
  obtain ⟨added, hmethods, _, hkeys⟩ :=
    Forwarder.exists_added_foldl (Forwarder.needed s c) c []
  have hkeys := hkeys hfit
  have hunfold : addForwarders s c = (Forwarder.needed s c).foldl Forwarder.addTo (c, []) := by
    unfold addForwarders
    rw [if_neg (by rw [hclass]; decide)]
  rw [← hunfold] at hmethods
  have hadded : ∀ name descriptor, (name, descriptor) ∈ added.map Member.key
      ↔ LacksDefault s c name descriptor ∧ BodyFits descriptor :=
    fun _ _ => mem_keys_added_iff hscope hkeys
  -- The class behind the step, its reports, and the methods it has more.
  refine ⟨(addForwarders s c).1, (addForwarders s c).2, added, rfl, hmethods, ?_, hadded,
    fun name descriptor hlacks hlong => ?_, ?_⟩
  · rw [hkeys]
    exact (List.filter_sublist.map Forwarder.key).nodup (Forwarder.nodup_firstOfEach _ _).1
  · refine reported_of_lacksDefault hclass hlacks ?_
    rintro ⟨m, hm, rfl, rfl⟩
    rw [hmethods] at hm
    rcases List.mem_append.1 hm with hm | hm
    · exact hlacks.undeclared ⟨m, hm, rfl, rfl⟩
    · exact hlong ((hadded _ _).1 (List.mem_map_of_mem hm)).2
  · rintro front back rfl
    -- A second time, the class is seen with what it has gained, and so lacks nothing that fits.
    obtain ⟨stub', hstub', hgains⟩ := gains_addForwarders hscope hstub
    subst hs
    refine addForwarders_again (gains_ofBatch hstub hstub' hgains front back _)
      Scope.seesDescribed_ofBatch (addForwarders_extends _ c).name
      (hmethods ▸ List.subset_append_left ..) fun name descriptor hlacks hfits => ?_
    obtain ⟨m, hm, hkey⟩ := List.mem_map.1 ((hadded name descriptor).2 ⟨hlacks, hfits⟩)
    cases hkey
    exact ⟨m, hmethods ▸ List.mem_append_right _ hm, rfl, rfl⟩

end Batch

/-- `X` gets one forwarder for a method that two interfaces offer, and gets none again. The
forwarder is for the interface that is listed first. -/
theorem addForwarders_exactly_extended : ∃ conventions stub,
    polyfillsInR.conventions = .ok conventions ∧ (classWithout ["I", "J"]).isInterface = false
      ∧ (classWithout ["I", "J"]).stub = .ok stub
      ∧ ∃ s, s = surroundings conventions (.ofClasses extendedInterfaces) [classWithout ["I", "J"]]
        ∧ CompanionsFit (classWithout ["I", "J"]) (Forwarder.needed s (classWithout ["I", "J"]))
        ∧ Offers s "I" "m" "()V" ∧ Offers s "J" "m" "()V"
        ∧ ∃ c' diagnostics m, addForwarders s (classWithout ["I", "J"]) = (c', diagnostics)
          ∧ c'.methods = [m] ∧ m.key = ("m", "()V")
          ∧ (addForwarders (surroundings conventions (.ofClasses extendedInterfaces) [c']) c').1
            = c' := by
  have hevaluated : (do
      let conventions ← polyfillsInR.conventions.toOption
      let stub ← (classWithout ["I", "J"]).stub.toOption
      let s := surroundings conventions (.ofClasses extendedInterfaces) [classWithout ["I", "J"]]
      return decide (CompanionsFit (classWithout ["I", "J"])
          (Forwarder.needed s (classWithout ["I", "J"]))
        ∧ Offers s "I" "m" "()V" ∧ Offers s "J" "m" "()V"
        ∧ LacksDefault s (classWithout ["I", "J"]) "m" "()V" ∧ BodyFits "()V"
        ∧ (addForwarders s (classWithout ["I", "J"])).1.methods.length = 1)) = some true := by
    decide +kernel
  simp only [toOption_bind_eq_some] at hevaluated
  obtain ⟨conventions, hconventions, stub, hstub, hchecked⟩ := hevaluated
  obtain ⟨hfit, hofI, hofJ, hlacks, hfits, hlength⟩ := of_decide_eq_true (Option.some.inj hchecked)
  refine ⟨conventions, stub, hconventions, rfl, hstub, _, rfl, hfit, hofI, hofJ, ?_⟩
  obtain ⟨c', diagnostics, added, hadd, hmethods, _, hkeys, _, hagain⟩ :=
    addForwarders_exactly rfl rfl hstub hfit
  -- One method for both interfaces, the nearer one's.
  rw [hadd, hmethods] at hlength
  obtain ⟨m, rfl⟩ := List.length_eq_one_iff.1 hlength
  have hkey := (hkeys "m" "()V").2 ⟨hlacks, hfits⟩
  exact ⟨c', diagnostics, m, hadd, hmethods, (List.mem_singleton.1 hkey).symm, hagain [] [] rfl⟩

/-! ## Methods that are left out

Two reasons why a default method is not forwarded: a companion that has a method of its kind twice,
the first of them not static, and a body that is too long. -/

/-- The stub of a class without fields and attributes. -/
theorem stub_of_methods {c : ClassFile} (hfields : c.fields = []) (hattributes : c.attributes = [])
    {methods : List MethodStub}
    (hmethods : List.Forall₂ (fun m m' => MethodStub.ofMember m = .ok m') c.methods methods) :
    c.stub = .ok {
      name := c.name, access := c.access, superName := c.superName, interfaces := c.interfaces
      annotations := [], fields := [], methods } := by
  refine ClassFile.stub_eq_ok.2 ⟨[], methods, ?_, hmethods, by rw [hfields]; rfl⟩
  unfold ClassFile.annotations
  rw [hattributes]
  rfl

section WithM

variable {conventions : Conventions} {descriptor : String} {d d' : MethodDescriptor}

/-- The interface `I`, whose method has the given descriptor, and its companion. -/
def interfaceAndCompanion (descriptor : String) : List ClassFile :=
  [interfaceWithM "I" descriptor [], companionWithM "I" descriptor]

/-- What can be seen of a class with the interface and of both. All other names are unknown. The
class is the whole batch, and the other two are the classpath. -/
theorem lookup_withM (h : MethodDescriptor.parse descriptor = .ok d)
    (h' : MethodDescriptor.parse (Forwarder.withReceiver "I" descriptor) = .ok d') (name : String) :
    (surroundings conventions (.ofClasses (interfaceAndCompanion descriptor))
        [classWithout ["I"]]).scope.lookup name
      = if name = "X" then some {
          name := "X", access := Access.publicFlag, superName := some "java/lang/Object"
          interfaces := ["I"], annotations := [], fields := [], methods := [] }
        else if name = "I" then some {
          name := "I", access := Access.publicFlag ||| Access.interfaceFlag ||| Access.abstractFlag
          superName := some "java/lang/Object", interfaces := [], annotations := [], fields := []
          methods := [{
            access := Access.publicFlag ||| Access.abstractFlag, name := "m", descriptor
            parsed := d }] }
        else if name = "I$" then some {
          name := "I$", access := Access.publicFlag, superName := some "java/lang/Object"
          interfaces := [], annotations := [], fields := []
          methods := [{
            access := Access.publicFlag ||| Access.staticFlag, name := "m"
            descriptor := Forwarder.withReceiver "I" descriptor, parsed := d' }] }
        else none := by
  have hclass := stub_of_methods (c := classWithout ["I"]) rfl rfl .nil
  have hinterface := stub_of_methods (c := interfaceWithM "I" descriptor []) rfl rfl
    (.cons (MethodStub.ofMember_eq_ok.2 ⟨d, h, rfl⟩) .nil)
  have hcompanion := stub_of_methods (c := companionWithM "I" descriptor) rfl rfl
    (.cons (MethodStub.ofMember_eq_ok.2 ⟨d', h', rfl⟩) .nil)
  show (Scope.ofBatch _ (.ofClasses (interfaceAndCompanion descriptor))).lookup name = _
  rw [Scope.lookup_ofBatch]
  unfold ClassIndex.stubsOf interfaceAndCompanion
  simp only [List.cons_append, List.nil_append, List.filterMap_cons, List.filterMap_nil, hclass,
    hinterface, hcompanion, Except.toOption, List.find?_cons, List.find?_nil]
  have hnames : (classWithout ["I"]).name = "X" ∧ (interfaceWithM "I" descriptor []).name = "I"
      ∧ (companionWithM "I" descriptor).name = "I$" := ⟨rfl, rfl, by rfl⟩
  simp only [hnames]
  -- The three classes by name, and then none.
  rcases eq_or_ne name "X" with rfl | hX
  · rfl
  rw [if_neg hX]
  rcases eq_or_ne name "I" with rfl | hI
  · rfl
  rw [if_neg hI]
  rcases eq_or_ne name "I$" with rfl | hC
  · rfl
  · simp only [hX.symm, hI.symm, hC.symm, hC, decide_false, if_false]

variable {s : Surroundings}

/-- The class lacks the method. It has no method at all, and no superclass that can be seen. The
interface has it without a body, and the companion has the body. -/
theorem lacksDefault_withM (h : MethodDescriptor.parse descriptor = .ok d)
    (h' : MethodDescriptor.parse (Forwarder.withReceiver "I" descriptor) = .ok d')
    (hs : s = surroundings conventions (.ofClasses (interfaceAndCompanion descriptor))
      [classWithout ["I"]]) (hsuffix : conventions.companionSuffix = "$") :
    LacksDefault s (classWithout ["I"]) "m" descriptor := by
  have hlookup := hs ▸ lookup_withM h h'
  -- Nothing is known about the superclass, so the chain is the class itself.
  have hchain := Scope.superclasses_eq_singleton (hlookup "X") fun parent hparent => by
    cases hparent
    exact hlookup "java/lang/Object"
  have hcompanion : s.conventions.companionName "I" = "I$" := by
    rw [hs]
    show "I" ++ conventions.companionSuffix = "I$"
    rw [hsuffix]
    rfl
  have hflags : Access.has (Access.publicFlag ||| Access.abstractFlag) Access.abstractFlag = true
      ∧ Access.has (Access.publicFlag ||| Access.abstractFlag) Access.staticFlag = false := by
    decide
  refine ⟨⟨"I", ?_, ⟨⟨_, hlookup "I", _, List.mem_singleton.2 rfl, hflags.1, hflags.2, rfl, rfl⟩,
    ?_⟩⟩, ?_, ?_⟩
  · refine Scope.mem_interfaceClosure_of_listed ?_
    show "I" ∈ (s.scope.superclasses "X").flatMap (·.interfaces)
    rw [hchain]
    exact List.mem_singleton.2 rfl
  · rw [hcompanion]
    refine declaresStatic_eq_true_iff.2 ⟨_, hlookup "I$", ?_⟩
    simp [ClassStub.method?, MethodStub.isStatic]
    decide
  · rintro ⟨m, hm, _⟩
    cases hm
  · rintro ⟨parent, hparent, _⟩
    rw [show (classWithout ["I"]).name = "X" from rfl, hchain] at hparent
    cases hparent

/-- Forwarders that it needs are for this method. No other method is offered to it. So there is one
at most. -/
theorem eq_of_mem_needed_withM (h : MethodDescriptor.parse descriptor = .ok d)
    (h' : MethodDescriptor.parse (Forwarder.withReceiver "I" descriptor) = .ok d')
    (hs : s = surroundings conventions (.ofClasses (interfaceAndCompanion descriptor))
      [classWithout ["I"]]) {f : Forwarder}
    (hf : f ∈ Forwarder.needed s (classWithout ["I"])) :
    f.key = ("m", descriptor) ∧ f.parsed = d := by
  have hlookup := hs ▸ lookup_withM h h'
  obtain ⟨interfaceName, _, hmem⟩ := List.mem_flatMap.1 (Forwarder.mem_of_mem_firstOfEach hf)
  obtain ⟨stub, _, m, hstub, _, hm, habstract, _, _, rfl⟩ := Forwarder.mem_ofInterface.1 hmem
  -- The only method without a body is that of `I`.
  rw [hlookup] at hstub
  split at hstub
  · cases hstub
    cases hm
  · split at hstub
    · cases hstub
      cases List.mem_singleton.1 hm
      exact ⟨rfl, rfl⟩
    · split at hstub
      · cases hstub
        cases List.mem_singleton.1 hm
        have hflags : Access.has (Access.publicFlag ||| Access.staticFlag) Access.abstractFlag
            = false := by
          decide
        exact absurd (hflags.symm.trans habstract) Bool.false_ne_true
      · cases hstub

/-- It does not get the method if that has too many parameters. There is room in the pool, so that
the body is the reason. -/
theorem addForwarders_withM_of_long (h : MethodDescriptor.parse descriptor = .ok d)
    (h' : MethodDescriptor.parse (Forwarder.withReceiver "I" descriptor) = .ok d')
    (hs : s = surroundings conventions (.ofClasses (interfaceAndCompanion descriptor))
      [classWithout ["I"]]) (hlong : 65535 < bodyLength d) :
    CompanionsFit (classWithout ["I"]) (Forwarder.needed s (classWithout ["I"]))
      ∧ (addForwarders s (classWithout ["I"])).1 = classWithout ["I"] := by
  constructor
  · have hnodup : ((Forwarder.needed s (classWithout ["I"])).map Forwarder.key).Nodup :=
      (Forwarder.nodup_firstOfEach _ _).1
    have hkeys : (Forwarder.needed s (classWithout ["I"])).map Forwarder.key
        ⊆ [("m", descriptor)] := by
      intro key hkey
      obtain ⟨f, hf, rfl⟩ := List.mem_map.1 hkey
      exact List.mem_singleton.2 (eq_of_mem_needed_withM h h' hs hf).1
    -- There is only one method to forward, so symbols are no matter.
    have hone := (List.Nodup.subperm hnodup hkeys).length_le
    rw [List.length_map, List.length_singleton] at hone
    refine companionsFit_of_room ?_
    show 1 + 6 * _ ≤ 65535
    omega
  · refine addForwarders_eq_self_iff.2 fun _ f hf m pool hmethod => ?_
    have hfits := (Forwarder.exists_method_iff.1 ⟨m, pool, hmethod⟩).2
    rw [(eq_of_mem_needed_withM h h' hs hf).2] at hfits
    omega

end WithM

/-- **A class can lack a method and not get it**: no body has room for the loads of so many
parameters. -/
theorem addForwarders_takingInts {conventions : Conventions} {s : Surroundings} {n : Nat}
    (hs : s = surroundings conventions
      (.ofClasses (interfaceAndCompanion (takingInts (255 + n)).text)) [classWithout ["I"]])
    (hsuffix : conventions.companionSuffix = "$") (hmany : 16384 ≤ n) (hslots : n ≤ 65280) :
    LacksDefault s (classWithout ["I"]) "m" (takingInts (255 + n)).text
      ∧ CompanionsFit (classWithout ["I"]) (Forwarder.needed s (classWithout ["I"]))
      ∧ (addForwarders s (classWithout ["I"])).1 = classWithout ["I"] := by
  have hints : ∀ t ∈ (takingInts (255 + n)).params, t.IsNamed := by
    intro t ht
    rw [List.eq_of_mem_replicate ht]
    trivial
  have h := MethodDescriptor.parse_text (d := takingInts (255 + n)) ⟨hints, nofun⟩
  have h' : MethodDescriptor.parse (Forwarder.withReceiver "I" (takingInts (255 + n)).text)
      = .ok { params := .object "I" :: (takingInts (255 + n)).params, result := .void } := by
    rw [Forwarder.withReceiver_text]
    refine MethodDescriptor.parse_text ⟨List.forall_mem_cons.2 ⟨?_, hints⟩, nofun⟩
    exact ⟨by decide, by decide⟩
  exact ⟨lacksDefault_withM h h' hs hsuffix,
    addForwarders_withM_of_long h h' hs (lt_bodyLength_takingInts hmany hslots)⟩

/-- A companion of `I` with two methods for `m`, of which the first is not static. -/
def doubledCompanion : ClassFile where
  access := Access.publicFlag
  name := "I$"
  superName := some "java/lang/Object"
  methods := [
    { access := Access.publicFlag, name := "m", descriptor := "(LI;)V" },
    { access := Access.publicFlag ||| Access.staticFlag, name := "m", descriptor := "(LI;)V" }]

/-- `X` does not get a method that the companion of `I` implements by the second one of two methods
with one descriptor, nor one whose forwarder would be too long. -/
theorem addForwarders_leaves_out : ∃ conventions, polyfillsInR.conventions = .ok conventions
    ∧ (let s := surroundings conventions
          (.ofClasses [interfaceWithM "I" "()V" [], doubledCompanion]) [classWithout ["I"]]
        ∃ stub found companion, (classWithout ["I"]).isInterface = false
          ∧ (classWithout ["I"]).stub = .ok stub ∧ s.scope.lookup "X" = some stub
          ∧ CompanionsFit (classWithout ["I"]) (Forwarder.needed s (classWithout ["I"]))
          ∧ "I" ∈ s.scope.interfaceClosure "X" ∧ s.scope.lookup "I" = some found
          ∧ (∃ m ∈ found.methods, m.isAbstract = true ∧ m.isStatic = false ∧ m.name = "m"
            ∧ m.descriptor = "()V")
          ∧ s.scope.lookup (conventions.companionName "I") = some companion
          ∧ (∃ m ∈ companion.methods, m.isStatic = true ∧ m.name = "m"
            ∧ m.descriptor = Forwarder.withReceiver "I" "()V")
          ∧ ¬ (classWithout ["I"]).Declares "m" "()V" ∧ ¬ InheritsBody s.scope "X" "m" "()V"
          ∧ (addForwarders s (classWithout ["I"])).1.methods = []
          ∧ (addForwarders s (classWithout ["I"])).2 = [])
      ∧ ∃ s, s = surroundings conventions
          (.ofClasses (interfaceAndCompanion (takingInts (255 + 16384)).text)) [classWithout ["I"]]
        ∧ LacksDefault s (classWithout ["I"]) "m" (takingInts (255 + 16384)).text
        ∧ CompanionsFit (classWithout ["I"]) (Forwarder.needed s (classWithout ["I"]))
        ∧ (addForwarders s (classWithout ["I"])).1 = classWithout ["I"] := by
  have hevaluated : (do
      let conventions ← polyfillsInR.conventions.toOption
      let s := surroundings conventions
        (.ofClasses [interfaceWithM "I" "()V" [], doubledCompanion]) [classWithout ["I"]]
      let stub ← (classWithout ["I"]).stub.toOption
      let found ← s.scope.lookup "I"
      let companion ← s.scope.lookup (conventions.companionName "I")
      return decide (conventions.companionSuffix = "$"
        ∧ s.scope.lookup "X" = some stub
        ∧ CompanionsFit (classWithout ["I"]) (Forwarder.needed s (classWithout ["I"]))
        ∧ "I" ∈ s.scope.interfaceClosure "X"
        ∧ (∃ m ∈ found.methods, m.isAbstract = true ∧ m.isStatic = false ∧ m.name = "m"
          ∧ m.descriptor = "()V")
        ∧ (∃ m ∈ companion.methods, m.isStatic = true ∧ m.name = "m"
          ∧ m.descriptor = Forwarder.withReceiver "I" "()V")
        ∧ ¬ (classWithout ["I"]).Declares "m" "()V" ∧ ¬ InheritsBody s.scope "X" "m" "()V"
        ∧ (addForwarders s (classWithout ["I"])).1.methods = []
        ∧ (addForwarders s (classWithout ["I"])).2 = [])) = some true := by
    decide +kernel
  simp only [toOption_bind_eq_some] at hevaluated
  obtain ⟨conventions, hconventions, stub, hstub, hevaluated⟩ := hevaluated
  obtain ⟨found, hfound, hevaluated⟩ := Option.bind_eq_some_iff.1 hevaluated
  obtain ⟨companion, hcompanion, hchecked⟩ := Option.bind_eq_some_iff.1 hevaluated
  obtain ⟨hsuffix, hseen, hfit, hinterface, hmethod, htarget, hgets⟩ :=
    of_decide_eq_true (Option.some.inj hchecked)
  -- The first part is evaluated. The second is about a body too long to evaluate, and has been
  -- proved for all such.
  refine ⟨conventions, hconventions, ⟨stub, found, companion, rfl, hstub, hseen, hfit, hinterface,
    hfound, hmethod, hcompanion, htarget, hgets⟩, ?_⟩
  exact ⟨_, rfl, addForwarders_takingInts rfl hsuffix (Nat.le_refl _) (by decide)⟩

end ClassLoom.Weave
