import ClassLoom.ClassStub
import ClassLoom.Proofs.Descriptor.Printed
import ClassLoom.Proofs.Weave.FactoryCalls
import ClassLoom.Proofs.Weave.Forwarders

/-!
# Stubs of woven classes

A class whose declarations can be read is woven to one whose declarations can be read: its
annotations are found in the pool that has grown, and the descriptors of new methods are
printed ones, or those of methods that could be seen. All that is different in its stub is what
`KeepsSignatures` tells.

* `ClassFile.annotations_grown`: annotations in pools that have grown;
* `described_weave`: the method descriptors of woven classes;
* `keepsSignatures_weave`: the stubs of a batch before and after weaving.
-/

namespace ClassLoom

open ConstantPool

/-! ## Annotations in pools that have grown

Annotations are kept in bytes and are read anew from the pool of the class whenever it is asked what
it declares. A pool that has grown gives what it gave before, so that nothing which could be read
gets lost. -/

/-- Tables of items that one reader reads where another does. It is enough to know so of one
item. -/
theorem Reader.table_of_imp {α : Type} {p q : Reader α}
    (himp : ∀ bs a rest, p bs = .ok (a, rest) → q bs = .ok (a, rest)) {bs rest : Bytes}
    {items : List α} (h : table p bs = .ok (items, rest)) : table q bs = .ok (items, rest) := by
  obtain ⟨count, mid, hcount, htimes⟩ := bind_eq_ok.1 h
  refine bind_eq_ok.2 ⟨count, mid, hcount, ?_⟩
  -- The counts are the same: item by item from here.
  clear h hcount
  generalize count.toNat = n at htimes ⊢
  induction n generalizing mid items with
  | zero =>
    cases htimes
    rfl
  | succ n ih =>
    obtain ⟨a, mid', more, ha, hmore, rfl⟩ := times_succ_eq_ok.1 htimes
    exact times_succ_eq_ok.2 ⟨a, mid', more, himp _ _ _ ha, ih mid' hmore, rfl⟩

section Grown

variable {pool pool' : ConstantPool}

/-- Only the type of an annotation is looked up. -/
theorem Annotation.read_grown (hgrown : Grown pool pool') {depth : Nat} {bs rest : Bytes}
    {a : Annotation} (h : read pool depth bs = .ok (a, rest)) :
    read pool' depth bs = .ok (a, rest) := by
  obtain ⟨index, mid, hindex, h⟩ := Reader.bind_eq_ok.1 h
  obtain ⟨type, mid', htype, h⟩ := Reader.bind_eq_ok.1 h
  obtain ⟨hfound, rfl⟩ := Reader.lift_eq_ok.1 htype
  refine Reader.bind_eq_ok.2 ⟨index, mid, hindex, ?_⟩
  exact Reader.bind_eq_ok.2 ⟨type, mid, Reader.lift_eq_ok.2 ⟨hgrown.getUtf8 hfound, rfl⟩, h⟩

/-- All annotations of a class, of whatever retention, are read from the grown pool as they were
from the old. -/
theorem Annotation.ofAttributes_grown (hgrown : Grown pool pool') {attributes : List Attribute}
    {annotations : List Annotation} (h : ofAttributes pool attributes = .ok annotations) :
    ofAttributes pool' attributes = .ok annotations := by
  obtain ⟨parsed, hparsed, hend⟩ := bind_eq_ok.1 h
  refine bind_eq_ok.2 ⟨parsed, mapM_eq_ok.2 ((mapM_eq_ok.1 hparsed).imp fun a found ha => ?_), hend⟩
  unfold parseAll at ha ⊢
  rw [Reader.all_eq_ok] at ha ⊢
  exact Reader.table_of_imp (fun _ _ _ => read_grown hgrown) ha

/-- The annotations of a class stay when its pool grows. -/
theorem ClassFile.annotations_grown {old new : ClassFile} (hgrown : Grown old.pool new.pool)
    (hattributes : new.attributes = old.attributes) {annotations : List Annotation}
    (h : old.annotations = .ok annotations) : new.annotations = .ok annotations := by
  unfold ClassFile.annotations
  rw [hattributes]
  exact Annotation.ofAttributes_grown hgrown h

end Grown

/-! ## Stubs

The stub of a class is what others can see of it. It can be made if the annotations can be read and
every method has a descriptor that is one, and the two conditions go separate ways through the
steps. -/

/-- Whether the descriptors of all methods of a class can be read. -/
def ClassFile.Described (c : ClassFile) : Prop :=
  ∀ m ∈ c.methods, ∃ d, MethodDescriptor.parse m.descriptor = .ok d

/-- What the stub says of a method: its flags, its name, and its descriptor beside what that reads
as. -/
theorem MethodStub.ofMember_eq_ok {m : Member} {m' : MethodStub} : ofMember m = .ok m'
    ↔ ∃ d, MethodDescriptor.parse m.descriptor = .ok d
      ∧ m' = { access := m.access, name := m.name, descriptor := m.descriptor, parsed := d } := by
  unfold ofMember
  rw [bind_eq_ok]
  refine exists_congr fun d => and_congr_right fun _ => ?_
  constructor
  · intro h
    cases h
    rfl
  · rintro rfl
    rfl

/-- What the stub of a class is. Its bodies are not read for that. -/
theorem ClassFile.stub_eq_ok {c : ClassFile} {stub : ClassStub} : c.stub = .ok stub
    ↔ ∃ annotations methods, c.annotations = .ok annotations
      ∧ List.Forall₂ (fun m m' => MethodStub.ofMember m = .ok m') c.methods methods
      ∧ stub = {
        name := c.name, access := c.access, superName := c.superName, interfaces := c.interfaces
        annotations := annotations.filterMap (·.typeName)
        fields := c.fields.map fun f =>
          { access := f.access, name := f.name, descriptor := f.descriptor }
        methods } := by
  unfold ClassFile.stub
  rw [bind_eq_ok]
  refine exists_congr fun annotations => ?_
  constructor
  · rintro ⟨hannotations, h⟩
    obtain ⟨methods, hmethods, hend⟩ := bind_eq_ok.1 h
    cases hend
    exact ⟨methods, hannotations, mapM_eq_ok.1 hmethods, rfl⟩
  · rintro ⟨methods, hannotations, hmethods, rfl⟩
    exact ⟨hannotations, bind_eq_ok.2 ⟨methods, mapM_eq_ok.2 hmethods, rfl⟩⟩

/-- A class that has a stub has methods with descriptors that can be read. -/
theorem ClassFile.described_of_stub {c : ClassFile} {stub : ClassStub} (h : c.stub = .ok stub) :
    c.Described := by
  obtain ⟨_, methods, _, hmethods, _⟩ := stub_eq_ok.1 h
  intro m hm
  obtain ⟨m', _, hm'⟩ := exists_of_mem_left hmethods hm
  obtain ⟨d, hd, _⟩ := MethodStub.ofMember_eq_ok.1 hm'
  exact ⟨d, hd⟩

/-- Whether a class has a stub can be told from its annotations and its methods, each on their
own. -/
theorem ClassFile.exists_stub_iff {c : ClassFile} : (∃ stub, c.stub = .ok stub)
    ↔ (∃ annotations, c.annotations = .ok annotations) ∧ c.Described := by
  constructor
  · rintro ⟨stub, hstub⟩
    obtain ⟨annotations, _, hannotations, _⟩ := stub_eq_ok.1 hstub
    exact ⟨⟨annotations, hannotations⟩, described_of_stub hstub⟩
  · rintro ⟨⟨annotations, hannotations⟩, hdescribed⟩
    obtain ⟨methods, hmethods⟩ : ∃ methods, c.methods.mapM MethodStub.ofMember = .ok methods := by
      refine exists_mapM_ok fun m hm => ?_
      obtain ⟨d, hd⟩ := hdescribed m hm
      exact ⟨_, MethodStub.ofMember_eq_ok.2 ⟨d, hd, rfl⟩⟩
    exact ⟨_, stub_eq_ok.2 ⟨annotations, methods, hannotations, mapM_eq_ok.1 hmethods, rfl⟩⟩

/-- The methods in the stub of a class have the descriptors that they were read from. -/
theorem ClassFile.parse_of_mem_stub {c : ClassFile} {stub : ClassStub} (h : c.stub = .ok stub)
    {m : MethodStub} (hm : m ∈ stub.methods) :
    MethodDescriptor.parse m.descriptor = .ok m.parsed := by
  obtain ⟨_, methods, _, hmethods, rfl⟩ := stub_eq_ok.1 h
  obtain ⟨old, _, hold⟩ := exists_of_mem_right hmethods hm
  obtain ⟨d, hd, rfl⟩ := MethodStub.ofMember_eq_ok.1 hold
  exact hd

namespace Weave

open Member (Rebodied)

/-! ## Method descriptors through the steps

New methods are the only ones that could come with a descriptor that is none. Factories get theirs
from the constructor and from the name of the class, initializers have a fixed one, and forwarders
that of the method they answer for. -/

section Described

variable {s : Surroundings} {c : ClassFile}

/-- Methods with other bodies have the same descriptors. -/
theorem described_of_forall₂ {new : ClassFile} (h : List.Forall₂ Rebodied c.methods new.methods)
    (hdescribed : c.Described) : new.Described := by
  intro m' hm'
  obtain ⟨m, hm, hsame⟩ := exists_of_mem_right h hm'
  rw [hsame.descriptor]
  exact hdescribed m hm

/-- The descriptor of a carrier's factory can be read if the carrier's name can stand in one: the
parameters are those of the constructor, which has been read. -/
theorem parse_factoryDescriptor {text : String} {d : MethodDescriptor} {name : String}
    (hd : MethodDescriptor.parse text = .ok d) (hnamed : (FieldType.object name).IsNamed) :
    MethodDescriptor.parse ("(" ++ FieldType.textOfAll d.params ++ ")" ++ ("L" ++ name ++ ";"))
      = .ok { params := d.params, result := .value (.object name) } := by
  -- Descriptors that are printed are read back, and the types of parameters come from one.
  have hparams := MethodDescriptor.isNamed_of_parse hd
  rw [text_newFactory]
  refine MethodDescriptor.parse_text ⟨hparams, fun t ht => ?_⟩
  cases ht
  exact hnamed

theorem parse_noArguments :
    MethodDescriptor.parse "()V" = .ok { params := [], result := .void } := by
  decide +kernel

/-- **A factory has a descriptor that can be read** where the name of its class can stand in one,
and so has every other method that the plan leaves in the class. -/
theorem Plans.described {conventions : Conventions} {plan : FactoryPlan}
    (h : Plans conventions c plan) (hnamed : (FieldType.object c.name).IsNamed)
    (hdescribed : c.Described) : (plan.commit c).Described := by
  have hfactory : ∃ d, MethodDescriptor.parse plan.factory.descriptor = .ok d := by
    obtain ⟨_, info, hplannable, hfactory⟩ := h.factory
    obtain ⟨old, d, _, hd, rfl⟩ := hplannable.factory
    rw [hfactory]
    exact ⟨_, parse_factoryDescriptor hd hnamed⟩
  -- The methods of the carrier, its static initializer and its new factory in turn.
  intro m hm
  unfold FactoryPlan.commit at hm
  rcases List.mem_append.1 hm with hm | hm
  · cases hclinit : plan.clinit with
    | none =>
      rw [hclinit] at hm
      exact hdescribed m hm
    | some planned =>
      rw [hclinit] at hm
      cases h.clinit planned hclinit with
      | added info _ =>
        rcases List.mem_append.1 hm with hm | hm
        · exact hdescribed m hm
        · rw [List.mem_singleton.1 hm]
          exact ⟨_, parse_noArguments⟩
      | extended i first first' hfirst hsame =>
        rcases List.mem_or_eq_of_mem_set hm with hm | rfl
        · exact hdescribed m hm
        · rw [hsame.descriptor]
          exact hdescribed first (List.mem_of_getElem? hfirst)
  · rw [List.mem_singleton.1 hm]
    exact hfactory

/-- Making the factory of a carrier keeps the descriptors readable. Of other classes nothing is
asked of the name, for they get no factory. -/
theorem described_prepareCarrier
    (hnamed : s.conventions.isLambdaCarrier c.name = true → (FieldType.object c.name).IsNamed)
    (hdescribed : c.Described) : (prepareCarrier s c).1.Described := by
  rcases prepareCarrier_cases s c with ⟨hsame, _⟩ | ⟨polyfill, plan, pool, hcarrier, hplan, hnew⟩
  · rwa [hsame]
  · have hnamed := hnamed (isLambdaCarrier_of_carrierPolyfill? hcarrier)
    have hdescribed := (plans_of_of? hplan).described hnamed hdescribed
    unfold ClassFile.Described
    rw [hnew, methods_addInterface]
    exact hdescribed

/-- Whether the methods that can be seen have descriptors that can be read. -/
def SeesDescribed (scope : Scope) : Prop :=
  ∀ name stub, scope.lookup name = some stub →
    ∀ m ∈ stub.methods, MethodDescriptor.parse m.descriptor = .ok m.parsed

/-- Forwarders have the descriptors of methods that can be seen. -/
theorem parse_of_mem_needed (hscope : SeesDescribed s.scope) {f : Forwarder}
    (hf : f ∈ Forwarder.needed s c) : MethodDescriptor.parse f.descriptor = .ok f.parsed := by
  obtain ⟨interfaceName, _, hf⟩ := List.mem_flatMap.1 (Forwarder.mem_of_mem_firstOfEach hf)
  obtain ⟨stub, _, m, hstub, _, hm, _, _, _, rfl⟩ := Forwarder.mem_ofInterface.1 hf
  exact hscope interfaceName stub hstub m hm

/-- Forwarders are added one by one, each with a descriptor that can be read. Those that cannot be
made add nothing. -/
theorem described_foldl_addTo {fs : List Forwarder}
    (hfs : ∀ f ∈ fs, ∃ d, MethodDescriptor.parse f.descriptor = .ok d)
    {state : ClassFile × List Diagnostic} (hdescribed : state.1.Described) :
    (fs.foldl Forwarder.addTo state).1.Described := by
  induction fs generalizing state with
  | nil => exact hdescribed
  | cons f fs ih =>
    obtain ⟨hf, hfs⟩ := List.forall_mem_cons.1 hfs
    obtain ⟨c, ds⟩ := state
    refine ih hfs ?_
    rcases addTo_cases c ds f with ⟨hsame, _⟩ | ⟨m, pool, hmethod, hnew⟩
    · rwa [hsame]
    · obtain ⟨info, rfl⟩ := f.eq_of_method hmethod
      rw [hnew]
      exact List.forall_mem_append.2 ⟨hdescribed, List.forall_mem_singleton.2 hf⟩

/-- Adding forwarders keeps the descriptors readable, since each was read when the method was looked
up. -/
theorem described_addForwarders (hscope : SeesDescribed s.scope) (hdescribed : c.Described) :
    (addForwarders s c).1.Described := by
  unfold addForwarders
  split
  · exact hdescribed
  · exact described_foldl_addTo (fun f hf => ⟨_, parse_of_mem_needed hscope hf⟩) hdescribed

/-- **Preparing a class keeps its declarations readable**, if the class is no carrier with a name
that cannot stand in a descriptor. -/
theorem described_prepare (hscope : SeesDescribed s.scope)
    (hnamed : s.conventions.isLambdaCarrier c.name = true → (FieldType.object c.name).IsNamed)
    (hdescribed : c.Described) : (prepare s c).1.Described := by
  rw [prepare_fst]
  refine described_addForwarders hscope ?_
  exact described_of_forall₂ (retypeAllLocals_rebodied s _)
    (described_prepareCarrier hnamed hdescribed)

end Described

/-! ## Stubs before and after

Weaving changes bodies, which no stub tells of, and interfaces and methods of carriers. All else in
a stub stays. -/

/-- What a method is in a stub that weaving has added to a class. -/
structure AddedSignature (conventions : Conventions) (className : String) (m : MethodStub) :
    Prop where
  hasBody : m.isAbstract = false
  /-- Static methods are added to carriers: factories and initializers. -/
  static : m.isStatic = true → conventions.isLambdaCarrier className = true
    ∧ (m.name = conventions.replacementFactory ∨ m.descriptor = "()V")

/-- How the stub of a woven class stands to that of the class before. -/
structure KeepsSignatures (conventions : Conventions) (old new : ClassStub) : Prop where
  name : new.name = old.name
  access : new.access = old.access
  superName : new.superName = old.superName
  interfaces : new.interfaces = old.interfaces ∨ conventions.isLambdaCarrier old.name = true
  /-- The methods are kept, or all but the old factories of a carrier. -/
  methods : ∃ kept added, new.methods = kept ++ added
    ∧ (kept = old.methods ∨ conventions.isLambdaCarrier old.name = true
      ∧ kept = old.methods.filter (·.name ≠ conventions.lambdaFactory))
    ∧ ∀ m ∈ added, AddedSignature conventions old.name m

section Stubs

variable {conventions : Conventions}

theorem KeepsSignatures.refl (stub : ClassStub) : KeepsSignatures conventions stub stub :=
  ⟨rfl, rfl, rfl, .inl rfl, stub.methods, [], (List.append_nil _).symm, .inl rfl, by simp⟩

/-- The signature of a method with another body is the same. Attributes are not part of a stub. -/
theorem signatures_of_rebodied {old new : List Member} {stubs stubs' : List MethodStub}
    (hrebodied : List.Forall₂ Rebodied old new)
    (hold : List.Forall₂ (fun m m' => MethodStub.ofMember m = .ok m') old stubs)
    (hnew : List.Forall₂ (fun m m' => MethodStub.ofMember m = .ok m') new stubs') :
    stubs' = stubs := by
  -- Both stubs are read off their methods in order, and the descriptor that is read is the same in
  -- both.
  induction hrebodied generalizing stubs stubs' with
  | nil =>
    cases hold
    cases hnew
    rfl
  | cons hsame _ ih =>
    cases hold with
    | cons hhead htail =>
      cases hnew with
      | cons hhead' htail' =>
        obtain ⟨d, hd, rfl⟩ := MethodStub.ofMember_eq_ok.1 hhead
        obtain ⟨d', hd', rfl⟩ := MethodStub.ofMember_eq_ok.1 hhead'
        rw [hsame.descriptor, hd] at hd'
        cases hd'
        rw [ih htail htail', hsame.access, hsame.name, hsame.descriptor]

/-- Leaving methods out by their names leaves the same ones out of the stub. The stub has its
methods in the order of the class. -/
theorem signatures_filter {ms : List Member} {stubs : List MethodStub} (p : String → Bool)
    (h : List.Forall₂ (fun m m' => MethodStub.ofMember m = .ok m') ms stubs) :
    List.Forall₂ (fun m m' => MethodStub.ofMember m = .ok m') (ms.filter (p ·.name))
      (stubs.filter (p ·.name)) := by
  induction h with
  | nil => exact .nil
  | cons hhead _ ih =>
    obtain ⟨d, _, rfl⟩ := MethodStub.ofMember_eq_ok.1 hhead
    rw [List.filter_cons, List.filter_cons]
    split
    · exact .cons hhead ih
    · exact ih

/-- **What a stub says of a method that weaving has added**: it has a body, and if it is static, it
is the factory or the static initializer of a carrier. -/
theorem IsAdded.signature {className : String} {m : Member} {m' : MethodStub}
    (h : IsAdded conventions className m) (hstub : MethodStub.ofMember m = .ok m') :
    AddedSignature conventions className m' := by
  obtain ⟨d, _, rfl⟩ := MethodStub.ofMember_eq_ok.1 hstub
  -- Which of the three it is decides the access flags, and these are all that is asked of it.
  cases h.kind with
  | factory hcarrier hname haccess =>
    refine ⟨?_, fun _ => ⟨hcarrier, .inl hname⟩⟩
    show Access.has m.access Access.abstractFlag = false
    rw [haccess]
    decide
  | initializer hcarrier _ hdescriptor haccess =>
    refine ⟨?_, fun _ => ⟨hcarrier, .inr hdescriptor⟩⟩
    show Access.has m.access Access.abstractFlag = false
    rw [haccess]
    decide
  | forwarder haccess =>
    refine ⟨?_, fun hstatic => ?_⟩
    · show Access.has m.access Access.abstractFlag = false
      rw [haccess]
      decide
    · have hnot : Access.has m.access Access.staticFlag = false := by
        rw [haccess]
        decide
      have hstatic : Access.has m.access Access.staticFlag = true := hstatic
      rw [hnot] at hstatic
      cases hstatic

/-- **What weaving keeps of a stub.** Fields and annotations are those of the class before; of the
methods, those that were there come first, without the ones that a carrier loses, and the added ones
behind them. -/
theorem Kept.signatures {old new : ClassFile} (h : Kept conventions old new)
    {stub stub' : ClassStub} (hold : old.stub = .ok stub) (hnew : new.stub = .ok stub') :
    KeepsSignatures conventions stub stub' := by
  obtain ⟨_, methods, _, hmethods, rfl⟩ := ClassFile.stub_eq_ok.1 hold
  obtain ⟨_, methods', _, hmethods', rfl⟩ := ClassFile.stub_eq_ok.1 hnew
  refine ⟨h.outline.name, h.outline.access, h.outline.superName, h.outline.interfaces, ?_⟩
  -- Whichever methods are kept, their signatures are in front of those of the new ones.
  have hcut {before : List Member} {stubs : List MethodStub}
      (hbefore : List.Forall₂ (fun m m' => MethodStub.ofMember m = .ok m') before stubs)
      (hkeeps : KeepsMethods conventions old.name before new.methods) :
      ∃ added, methods' = stubs ++ added
        ∧ ∀ m ∈ added, AddedSignature conventions old.name m := by
    obtain ⟨kept, added, hsplit, hkept, hadded⟩ := hkeeps
    rw [hsplit] at hmethods'
    obtain ⟨front, back, hsplit', hfront, hback⟩ := exists_of_forall₂_append hmethods'
    refine ⟨back, ?_, fun m hm => ?_⟩
    · rw [hsplit', signatures_of_rebodied hkept hbefore hfront]
    · obtain ⟨m', hm', hstub⟩ := exists_of_mem_right hback hm
      exact (hadded m' hm').signature hstub
  rcases h.methods with hall | ⟨hcarrier, hrest⟩
  · obtain ⟨added, hsplit, hadded⟩ := hcut hmethods hall
    exact ⟨methods, added, hsplit, .inl rfl, hadded⟩
  · obtain ⟨added, hsplit, hadded⟩ :=
      hcut (signatures_filter (· ≠ conventions.lambdaFactory) hmethods) hrest
    exact ⟨_, added, hsplit, .inr ⟨hcarrier, rfl⟩, hadded⟩

/-- A class keeps its stub readable with the descriptors of its methods. -/
theorem Kept.exists_stub {old new : ClassFile} (h : Kept conventions old new)
    (hdescribed : new.Described) {stub : ClassStub} (hstub : old.stub = .ok stub) :
    ∃ stub', new.stub = .ok stub' := by
  obtain ⟨⟨annotations, hannotations⟩, _⟩ := ClassFile.exists_stub_iff.1 ⟨stub, hstub⟩
  have hannotations :=
    ClassFile.annotations_grown h.outline.pool h.outline.attributes hannotations
  exact ClassFile.exists_stub_iff.2 ⟨⟨annotations, hannotations⟩, hdescribed⟩

section Batch

variable {classpath : ClassIndex} {batch : List ClassFile}

/-- Woven classes have methods with descriptors that can be read. Each phase keeps that up. This is
what makes a class have a stub, together with readable annotations. -/
theorem described_weave (hscope : SeesDescribed (Scope.ofBatch batch classpath))
    (hnamed : ∀ c ∈ batch, conventions.isLambdaCarrier c.name = true →
      (FieldType.object c.name).IsNamed)
    (hdescribed : ∀ c ∈ batch, c.Described) {new : ClassFile}
    (hnew : new ∈ (weave conventions classpath batch).classes) : new.Described := by
  obtain ⟨k, hk⟩ := List.mem_iff_getElem?.1 hnew
  obtain ⟨old, prepared, s, hold, hprepared, _, _, rfl⟩ := getElem?_weave hk
  have hold := List.mem_of_getElem? hold
  have hprepared : prepared.Described := by
    rw [hprepared]
    exact described_prepare hscope (hnamed old hold) (hdescribed old hold)
  intro m hm
  exact described_of_forall₂ (redirectCalls_rebodied _ prepared) hprepared m
    (mem_methods_of_narrowCarrier hm)

/-- **The stubs of a batch before and after weaving.** If every class of a batch has a stub and
carriers have names that can stand in a descriptor, the woven classes have stubs too, and class by
class these keep the signatures. -/
theorem keepsSignatures_weave (hscope : SeesDescribed (Scope.ofBatch batch classpath))
    (hnamed : ∀ c ∈ batch, conventions.isLambdaCarrier c.name = true →
      (FieldType.object c.name).IsNamed)
    (hstubs : ∀ c ∈ batch, ∃ stub, c.stub = .ok stub) :
    List.Forall₂ (fun old new => ∃ stub stub', old.stub = .ok stub ∧ new.stub = .ok stub'
      ∧ KeepsSignatures conventions stub stub')
      batch (weave conventions classpath batch).classes := by
  have hkept := kept_weave conventions classpath batch
  -- The bodies of a batch are not looked at: that the woven classes have stubs comes from the old
  -- ones alone.
  have hdescribed : ∀ c ∈ batch, c.Described := by
    intro c hc
    obtain ⟨stub, hstub⟩ := hstubs c hc
    exact ClassFile.described_of_stub hstub
  refine List.forall₂_iff_zip.2 ⟨hkept.length_eq, fun {old new} hmem => ?_⟩
  obtain ⟨hold, hnew⟩ := List.of_mem_zip hmem
  obtain ⟨stub, hstub⟩ := hstubs old hold
  have hkept : Kept conventions old new := (List.forall₂_iff_zip.1 hkept).2 hmem
  obtain ⟨stub', hstub'⟩ :=
    hkept.exists_stub (described_weave hscope hnamed hdescribed hnew) hstub
  exact ⟨stub, stub', hstub, hstub', hkept.signatures hstub hstub'⟩

end Batch
end Stubs
end Weave
end ClassLoom
