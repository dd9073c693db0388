import ClassLoom.Proofs.ClassFile.Fits
import ClassLoom.Proofs.Weave.DefaultMethods
import ClassLoom.Proofs.Weave.PassedOver

/-!
# Room for what weaving adds

Weaving fits symbols into the pool while it can still go back, but counts methods, fields and
interfaces only when the class is written, and then interns the names and types of new members
and the name of their bodies. So a class that could be written can become one that cannot.

* `HasRoom`: what a woven class needs besides what it had;
* `HasSlots`: what is enough for forwarders;
* `LeavesOut`: what becomes of additions that fail while it can go back;
* `bytes_weave`: the woven classes that can be written.
-/

namespace ClassLoom

open ConstantPool

/-! ## Pools

A pool that has grown can be written if the old one could and the new constants can. Only a text can
be too long. -/

namespace ConstantPool

variable {old new : ConstantPool}

/-- Only new constants can keep a pool from being written. All others have been written, or could
have been. -/
theorem Grown.writable_iff (h : Grown old new) (hold : old.Writable) :
    new.Writable ↔ ∀ c ∈ new.slots.toList.drop old.size, ∃ bs, c.bytes = .ok bs := by
  constructor
  · intro hnew c hc
    exact hnew c (List.mem_of_mem_drop hc)
  · intro hadded c hc
    obtain ⟨more, hmore⟩ := h
    rw [← hmore, show old.size = old.slots.toList.length from Array.length_toList.symm,
      List.drop_left] at hadded
    rw [← hmore] at hc
    rcases List.mem_append.1 hc with hc | hc
    · exact hold c hc
    · exact hadded c hc

theorem Grown.writable (h : Grown old new) (hnew : new.Writable) : old.Writable := by
  intro c hc
  exact hnew c (h.subset hc)

end ConstantPool

namespace Weave

open Member (Rebodied)

/-! ## Counts and lengths

Of the counts and lengths of a class, weaving changes those of methods, fields and interfaces, and
the lengths of bodies. All others were fine before. -/

section Kept

variable {conventions : Conventions} {old new : ClassFile}

/-- Where a method of a woven class comes from. -/
theorem KeepsMethods.exists_of_mem_new {className : String} {before after : List Member}
    (h : KeepsMethods conventions className before after) {m : Member} (hm : m ∈ after) :
    (∃ m' ∈ before, Rebodied m' m) ∨ IsAdded conventions className m := by
  obtain ⟨kept, added, rfl, hkept, hadded⟩ := h
  rcases List.mem_append.1 hm with hm | hm
  · exact .inl (exists_of_mem_right hkept hm)
  · exact .inr (hadded m hm)

/-- A method of a woven class is one that was there, maybe with another body, or has been added. -/
theorem Kept.exists_of_mem_methods (h : Kept conventions old new) {m : Member}
    (hm : m ∈ new.methods) :
    (∃ m' ∈ old.methods, Rebodied m' m) ∨ IsAdded conventions old.name m := by
  rcases h.methods with hall | ⟨_, hrest⟩
  · exact hall.exists_of_mem_new hm
  · rcases hrest.exists_of_mem_new hm with ⟨m', hm', hsame⟩ | hadded
    · exact .inl ⟨m', (List.mem_filter.1 hm').1, hsame⟩
    · exact .inr hadded

/-- The attributes of a method with another body fit if its body does. Their number is the same or
one more, and all but the body were there. -/
theorem tableFits_of_rebodied {m m' : Member} (h : Rebodied m m')
    (hold : Attribute.TableFits m.attributes)
    (hbodies : ∀ a ∈ m'.attributes, a.name = Code.attributeName → a.Fits) :
    Attribute.TableFits m'.attributes := by
  refine ⟨h.attributes.length_eq ▸ hold.1, fun a' ha' => ?_⟩
  -- The payload of a body may be a new one; every other payload is what it was.
  obtain ⟨a, ha, hname, hsame⟩ := exists_of_mem_right h.attributes ha'
  by_cases hcode : a.name = Code.attributeName
  · exact hbodies a' ha' (hname.trans hcode)
  · rw [hsame hcode]
    exact hold.2 a ha

/-- The attributes of a new method fit if its body does. -/
theorem IsAdded.tableFits {className : String} {m : Member} (h : IsAdded conventions className m)
    (hbodies : ∀ a ∈ m.attributes, a.name = Code.attributeName → a.Fits) :
    Attribute.TableFits m.attributes := by
  have hlength := congrArg List.length h.attributes
  rw [List.length_map, List.length_singleton] at hlength
  refine ⟨by omega, fun a ha => hbodies a ha ?_⟩
  have hname := List.mem_map_of_mem (f := Attribute.name) ha
  rw [h.attributes] at hname
  exact List.mem_singleton.1 hname

/-- Whether the format has room for what weaving has made of a class. -/
structure HasRoom (old new : ClassFile) : Prop where
  interfaces : new.interfaces.length < 65536
  fields : new.fields.length < 65536
  methods : new.methods.length < 65536
  bodies : ∀ m ∈ new.methods, ∀ a ∈ m.attributes, a.name = Code.attributeName → a.Fits
  /-- All symbols that are written fit into the pool, where no new text is too long. -/
  symbols : ∃ pool, internAll new.symbols new.pool = .ok () pool
    ∧ ∀ c ∈ pool.slots.toList.drop old.pool.size, ∃ bs, c.bytes = .ok bs

/-- Which counts and lengths weaving can make too large. The attributes of the class, of its fields
and of its new methods are none of these. -/
theorem Kept.tablesFit_iff (h : Kept conventions old new) (hold : old.TablesFit) :
    new.TablesFit ↔ new.interfaces.length < 65536 ∧ new.fields.length < 65536
      ∧ new.methods.length < 65536
      ∧ ∀ m ∈ new.methods, ∀ a ∈ m.attributes, a.name = Code.attributeName → a.Fits := by
  constructor
  · intro hnew
    exact ⟨hnew.interfaces, hnew.fields.1, hnew.methods.1, fun m hm a ha _ =>
      (hnew.methods.2 m hm).2 a ha⟩
  · rintro ⟨hinterfaces, hfields, hmethods, hbodies⟩
    refine ⟨hinterfaces, ⟨hfields, fun f hf => ?_⟩, ⟨hmethods, fun m hm => ?_⟩, ?_⟩
    · -- A new field has no attributes.
      obtain ⟨added, hsplit, hadded⟩ := h.outline.fields
      rw [hsplit] at hf
      rcases List.mem_append.1 hf with hf | hf
      · exact hold.fields.2 f hf
      · rw [(hadded f hf).attributes]
        exact ⟨by decide, by simp⟩
    · rcases h.exists_of_mem_methods hm with ⟨m', hm', hsame⟩ | hadded
      · exact tableFits_of_rebodied hsame (hold.methods.2 m' hm') (hbodies m hm)
      · exact hadded.tableFits (hbodies m hm)
    · rw [h.outline.attributes]
      exact hold.attributes

/-- The symbols of a class that could be written are short enough. -/
theorem writableText_of_bytes {c : ClassFile} (hpool : Reachable c.pool)
    (h : ∃ bs, c.bytes = .ok bs) : ∀ symbol ∈ c.symbols, WritableText symbol.name := by
  obtain ⟨_, pool, hsymbols, hwritable⟩ := (ClassFile.bytes_ok_iff hpool).1 h
  exact fun symbol hsymbol => hwritable _ (mem_of_internAll hpool hsymbols hsymbol)

/-- The pool of a class that could be written could be, too: writing only adds to it. -/
theorem writable_of_classBytes {c : ClassFile} (hpool : Reachable c.pool)
    (h : ∃ bs, c.bytes = .ok bs) : c.pool.Writable := by
  obtain ⟨_, pool, hsymbols, hwritable⟩ := (ClassFile.bytes_ok_iff hpool).1 h
  exact ((appends_internAll _).grown_of_ok hsymbols).writable hwritable

/-- **Which woven classes can be written**, if the class could be before. Counts, lengths and
constants are asked for, and slots for the symbols that are interned when it is written. -/
theorem Kept.bytes_ok_iff (h : Kept conventions old new) (hpool : Reachable old.pool)
    (hpool' : Reachable new.pool) (hold : ∃ bs, old.bytes = .ok bs) :
    (∃ bs, new.bytes = .ok bs) ↔ HasRoom old new := by
  have hwritable := writable_of_classBytes hpool hold
  have hgrown {pool : ConstantPool} (hpool : internAll new.symbols new.pool = .ok () pool) :
      Grown old.pool pool := h.outline.pool.trans ((appends_internAll _).grown_of_ok hpool)
  rw [ClassFile.bytes_ok_iff hpool', h.tablesFit_iff ((ClassFile.bytes_ok_iff hpool).1 hold).1]
  constructor
  · rintro ⟨⟨hinterfaces, hfields, hmethods, hbodies⟩, pool, hsymbols, hnew⟩
    exact ⟨hinterfaces, hfields, hmethods, hbodies, pool, hsymbols,
      ((hgrown hsymbols).writable_iff hwritable).1 hnew⟩
  · rintro ⟨hinterfaces, hfields, hmethods, hbodies, pool, hsymbols, htexts⟩
    exact ⟨⟨hinterfaces, hfields, hmethods, hbodies⟩, pool, hsymbols,
      ((hgrown hsymbols).writable_iff hwritable).2 htexts⟩

/-! ## Classes that are no carriers

Such a class gets forwarders and nothing else. Each of them has three symbols, its name, its
descriptor and the name of bodies, so three slots for each are enough. -/

theorem symbols_of_rebodied {m m' : Member} (h : Rebodied m m') : m'.symbols = m.symbols := by
  rw [m'.symbols_eq, m.symbols_eq, h.name, h.descriptor, h.attributeNames]

theorem symbols_of_forall₂ {before after : List Member} (h : List.Forall₂ Rebodied before after) :
    after.flatMap Member.symbols = before.flatMap Member.symbols := by
  induction h with
  | nil => rfl
  | cons hhead _ ih => rw [List.flatMap_cons, List.flatMap_cons, symbols_of_rebodied hhead, ih]

theorem IsAdded.symbols {className : String} {m : Member} (h : IsAdded conventions className m) :
    m.symbols = [.text m.name, .text m.descriptor, .text Code.attributeName] := by
  rw [m.symbols_eq, h.attributes]
  rfl

/-- New methods have three symbols each. -/
theorem length_symbols_of_isAdded {className : String} {added : List Member}
    (h : ∀ m ∈ added, IsAdded conventions className m) :
    (added.flatMap Member.symbols).length = 3 * added.length := by
  induction added with
  | nil => rfl
  | cons m added ih =>
    obtain ⟨hm, hrest⟩ := List.forall_mem_cons.1 h
    rw [List.flatMap_cons, List.length_append, ih hrest, hm.symbols, List.length_cons,
      List.length_cons, List.length_cons, List.length_nil, List.length_cons]
    omega

/-- The methods that a class had are in front, and new ones behind them. -/
theorem KeepsMethods.take_drop {className : String} {before after : List Member}
    (h : KeepsMethods conventions className before after) :
    List.Forall₂ Rebodied before (after.take before.length)
      ∧ ∀ m ∈ after.drop before.length, IsAdded conventions className m := by
  obtain ⟨kept, added, rfl, hkept, hadded⟩ := h
  rw [hkept.length_eq, List.take_left, List.drop_left]
  exact ⟨hkept, hadded⟩

/-- A class that is no carrier gets methods, and nothing else. -/
theorem Kept.eq_of_not_isLambdaCarrier (h : Kept conventions old new)
    (hcarrier : conventions.isLambdaCarrier old.name = false) :
    new.interfaces = old.interfaces ∧ new.fields = old.fields
      ∧ KeepsMethods conventions old.name old.methods new.methods := by
  have hnot : ¬ conventions.isLambdaCarrier old.name = true := by simp [hcarrier]
  refine ⟨h.outline.interfaces.resolve_right hnot, ?_,
    h.methods.resolve_right fun hlost => hnot hlost.1⟩
  obtain ⟨added, hsplit, hadded⟩ := h.outline.fields
  cases added with
  | nil => rw [hsplit, List.append_nil]
  | cons f _ => exact absurd (hadded f (List.mem_cons_self ..)).carrier hnot

/-- The symbols of a class that is no carrier are those it had and those of new methods. -/
theorem Kept.symbols_subset (h : Kept conventions old new)
    (hcarrier : conventions.isLambdaCarrier old.name = false) : new.symbols
      ⊆ old.symbols ++ (new.methods.drop old.methods.length).flatMap Member.symbols := by
  obtain ⟨hinterfaces, hfields, hmethods⟩ := h.eq_of_not_isLambdaCarrier hcarrier
  have hsame := symbols_of_forall₂ hmethods.take_drop.1
  intro symbol hsymbol
  unfold ClassFile.symbols at hsymbol ⊢
  rw [hinterfaces, hfields, h.outline.name, h.outline.superName, h.outline.attributes,
    ← List.take_append_drop old.methods.length new.methods, List.flatMap_append, hsame] at hsymbol
  simp only [List.mem_append] at hsymbol ⊢
  tauto

/-- A forwarder has three texts, and the other symbols lack no more slots than they did. Names and
descriptors are all that a method adds. -/
theorem Kept.missing_le (h : Kept conventions old new) (hpool : old.pool.Consistent)
    (hpool' : new.pool.Consistent) (hcarrier : conventions.isLambdaCarrier old.name = false) :
    new.pool.missing new.symbols
      ≤ old.pool.missing old.symbols + 3 * (new.methods.length - old.methods.length) := by
  obtain ⟨_, _, hmethods⟩ := h.eq_of_not_isLambdaCarrier hcarrier
  have hadded := hmethods.take_drop.2
  have hsubset := h.symbols_subset hcarrier
  have hlength := length_symbols_of_isAdded hadded
  rw [List.length_drop] at hlength
  generalize new.methods.drop old.methods.length = added at hadded hsubset hlength
  -- New methods need texts only, at most one slot for each.
  have htexts : ∀ symbol ∈ added.flatMap Member.symbols, symbol.className? = none := by
    intro symbol hsymbol
    obtain ⟨m, hm, hsymbol⟩ := List.mem_flatMap.1 hsymbol
    rw [(hadded m hm).symbols] at hsymbol
    simp only [List.mem_cons, List.not_mem_nil, or_false] at hsymbol
    rcases hsymbol with rfl | rfl | rfl <;> rfl
  calc new.pool.missing new.symbols
      ≤ new.pool.missing old.symbols + new.pool.missing (added.flatMap Member.symbols) :=
        missing_le_add new.pool hsubset
    _ ≤ old.pool.missing old.symbols + (added.flatMap Member.symbols).length :=
        Nat.add_le_add (h.outline.pool.missing_le hpool hpool' old.symbols)
          (missing_le_length new.pool htexts)
    _ = old.pool.missing old.symbols + 3 * (new.methods.length - old.methods.length) := by
        rw [hlength]

/-- Whether a class has slots left for the forwarders that it has got, three for each, and the
rest of it fits. -/
structure HasSlots (old new : ClassFile) : Prop where
  methods : new.methods.length < 65536
  bodies : ∀ m ∈ new.methods, ∀ a ∈ m.attributes, a.name = Code.attributeName → a.Fits
  constants : ∀ c ∈ new.pool.slots.toList.drop old.pool.size, ∃ bs, c.bytes = .ok bs
  added : ∀ m ∈ new.methods.drop old.methods.length,
    WritableText m.name ∧ WritableText m.descriptor
  slots : new.pool.size + old.pool.missing old.symbols
    + 3 * (new.methods.length - old.methods.length) ≤ 65535

instance (text : String) : Decidable (WritableText text) := decidableSucceeds _

instance (old new : ClassFile) : Decidable (HasSlots old new) :=
  decidable_of_iff (_ ∧ _ ∧ _ ∧ _ ∧ _)
    ⟨fun ⟨methods, bodies, constants, added, slots⟩ => ⟨methods, bodies, constants, added, slots⟩,
      fun h => ⟨h.methods, h.bodies, h.constants, h.added, h.slots⟩⟩

/-- **Three slots for each forwarder are enough.** With them, and with counts and lengths that fit,
nothing can fail. -/
theorem Kept.exists_bytes (h : Kept conventions old new) (hpool : Reachable old.pool)
    (hpool' : Reachable new.pool) (hold : ∃ bs, old.bytes = .ok bs)
    (hcarrier : conventions.isLambdaCarrier old.name = false) (hslots : HasSlots old new) :
    ∃ bs, new.bytes = .ok bs := by
  obtain ⟨hinterfaces, hfields, hmethods⟩ := h.eq_of_not_isLambdaCarrier hcarrier
  have hfits := ((ClassFile.bytes_ok_iff hpool).1 hold).1
  -- Counts and lengths, the constants of the pool, the texts to be interned, and their slots.
  refine ClassFile.exists_bytes hpool' ?_ ?_ ?_ ?_
  · refine (h.tablesFit_iff hfits).2 ⟨?_, ?_, hslots.methods, hslots.bodies⟩
    · rw [hinterfaces]
      exact hfits.interfaces
    · rw [hfields]
      exact hfits.fields.1
  · exact (h.outline.pool.writable_iff (writable_of_classBytes hpool hold)).2 hslots.constants
  · intro symbol hsymbol
    rcases List.mem_append.1 (h.symbols_subset hcarrier hsymbol) with hsymbol | hsymbol
    · exact writableText_of_bytes hpool hold symbol hsymbol
    · obtain ⟨m, hm, hsymbol⟩ := List.mem_flatMap.1 hsymbol
      obtain ⟨hname, hdescriptor⟩ := hslots.added m hm
      rw [(hmethods.take_drop.2 m hm).symbols] at hsymbol
      rcases List.mem_cons.1 hsymbol with rfl | hsymbol
      · exact hname
      · rcases List.mem_pair.1 hsymbol with rfl | rfl
        · exact hdescriptor
        · exact ⟨_, rfl⟩
  · have hmissing := h.missing_le hpool.consistent hpool'.consistent hcarrier
    have hroom := hslots.slots
    omega

end Kept

/-! ## What is left out

While weaving can still go back, what fails is passed over and reported: a factory, a forwarder, a
body. What remains is that a class cannot be written in the end, for want of room. -/

/-- A method on which a turn fails is reported and passed over. Those in front of it have had their
turns, with whatever they interned. -/
theorem Step.TakesTurns.reported_of_fails {step : Step} {turn : Surroundings → String → Turn}
    (h : step.TakesTurns turn) {s : Surroundings} {c : ClassFile}
    (hturn : (turn s c.name).LeavesMalformed c.name) {before after : List Member} {m : Member}
    (hmethods : c.methods = before ++ m :: after) {message : String}
    (hfails : turn s c.name (step s { c with methods := before }).1.pool m
      = (m, (step s { c with methods := before }).1.pool,
        [.malformed (.ofMethod c.name m.name m.descriptor) message])) :
    .malformed (.ofMethod c.name m.name m.descriptor) message ∈ (step s c).2
      ∧ step.PassesOver s c before m after := by
  have hpool : (step s { c with methods := before }).1.pool
      = (takeTurns (turn s c.name) c.pool before).2.1 := by
    rw [h s { c with methods := before }]
  -- The turn of the method comes when the pool is that behind the methods before it.
  have hreported : .malformed (.ofMethod c.name m.name m.descriptor) message
      ∈ (turn s c.name (takeTurns (turn s c.name) c.pool before).2.1 m).2.2 := by
    rw [← hpool, hfails]
    exact List.mem_singleton.2 rfl
  constructor
  · rw [h, hmethods, takeTurns_append, takeTurns]
    exact List.mem_append_right _ (List.mem_append_left _ hreported)
  · rw [← h.reportsOn_eq] at hreported
    exact ((h.passesOverMalformed s c hturn).passesOver before m after hmethods _ hreported
      message rfl).2

/-- A method whose calls cannot be redirected is passed over and reported. -/
theorem redirectTurn_of_error {s : Surroundings} {className : String} {pool : ConstantPool}
    {m : Member} {e : ClassError} (h : (redirectMethod s className m).on pool = .error e) :
    redirectTurn s className pool m
      = (m, pool, [.malformed (.ofMethod className m.name m.descriptor) e.message]) := by
  simp only [redirectTurn, h]

/-- So is one whose variables cannot be retyped. -/
theorem retypeTurn_of_error {s : Surroundings} {className : String} {pool : ConstantPool}
    {m : Member} {e : ClassError} {polyfill : Polyfill}
    (hpolyfill : s.polyfill? s.conventions.localVariableType = some polyfill)
    (h : (retypeLocals (descriptorOf s.conventions.localVariableType) (descriptorOf polyfill.name)
      m).on pool = .error e) :
    retypeTurn s className pool m
      = (m, pool, [.malformed (.ofMethod className m.name m.descriptor) e.message]) := by
  simp only [retypeTurn, hpolyfill, h]

/-- What becomes of additions to a class that fail while weaving can still go back. The
surroundings are those in which classes are prepared and those in which calls are redirected. -/
structure LeavesOut (s s' : Surroundings) (old new : ClassFile) (reported : List Diagnostic) :
    Prop where
  /-- A carrier for which no factory can be made gets nothing. -/
  carrier : ∀ polyfill e, carrierPolyfill? s old = some polyfill →
    (FactoryPlan.of? s.conventions old).on old.pool = .error e →
    (prepareCarrier s old).1 = old
      ∧ .malformed (.ofMethod old.name s.conventions.replacementFactory "") e.message ∈ reported
  /-- Local variables that cannot be retyped stay as they are. -/
  locals : ∀ polyfill, s.polyfill? s.conventions.localVariableType = some polyfill →
    ∀ c, c = (prepareCarrier s old).1 →
    ∀ before m after e, c.methods = before ++ m :: after →
      (retypeLocals (descriptorOf s.conventions.localVariableType) (descriptorOf polyfill.name)
        m).on (retypeAllLocals s { c with methods := before }).1.pool = .error e →
      .malformed (.ofMethod old.name m.name m.descriptor) e.message ∈ reported
        ∧ Step.PassesOver retypeAllLocals s c before m after
  /-- A default method for which no forwarder can be made is reported, if a forwarder was needed
  and is still there, that is, is no old factory of a carrier. -/
  forwarder : old.isInterface = false → ∀ interfaceName ∈ s.scope.interfaceClosure old.name,
    ∀ f ∈ Forwarder.ofInterface s interfaceName, new.Declares f.name f.descriptor
      ∨ s.conventions.isLambdaCarrier old.name = true ∧ f.name = s.conventions.lambdaFactory
      ∨ InheritsBody s.scope old.name f.name f.descriptor
      ∨ ∃ message, .malformed (.ofMethod old.name f.name f.descriptor) message ∈ reported
  /-- Calls that cannot be redirected stay as they are. -/
  calls : ∀ c, c = (prepare s old).1 → ∀ before m after e, c.methods = before ++ m :: after →
    (redirectMethod s' c.name m).on (redirectCalls s' { c with methods := before }).1.pool
      = .error e →
    .malformed (.ofMethod old.name m.name m.descriptor) e.message ∈ reported
      ∧ Step.PassesOver redirectCalls s' c before m after

section Batch

variable {conventions : Conventions} {classpath : ClassIndex} {batch : List ClassFile}

/-- What weaving keeps of a class, by its place. -/
theorem kept_of_getElem? {k : Nat} {old new : ClassFile} (hold : batch[k]? = some old)
    (hnew : (weave conventions classpath batch).classes[k]? = some new) :
    Kept conventions old new := by
  obtain ⟨hk, rfl⟩ := List.getElem?_eq_some_iff.1 hold
  obtain ⟨hk', rfl⟩ := List.getElem?_eq_some_iff.1 hnew
  exact (kept_weave conventions classpath batch).get hk hk'

/-- **What is left out**: nothing without a report. The phases are taken one after the other, with
the place of the class in the batch. -/
theorem leavesOut_weave {k : Nat} {old new : ClassFile} (hold : batch[k]? = some old)
    (hnew : (weave conventions classpath batch).classes[k]? = some new) :
    LeavesOut (surroundings conventions classpath batch)
      (surroundings conventions classpath (phaseClasses prepare conventions classpath batch))
      old new (weave conventions classpath batch).diagnostics := by
  obtain ⟨old', prepared, _, hold', hprepared, hmem, -, -⟩ := getElem?_weave hnew
  obtain rfl : old = old' := Option.some.inj (hold.symm.trans hold')
  have hreported {d : Diagnostic}
      (hd : d ∈ (prepare (surroundings conventions classpath batch) old).2) :
      d ∈ (weave conventions classpath batch).diagnostics :=
    mem_weave_diagnostics_of_prepare (List.mem_of_getElem? hold) hd
  constructor
  · -- The carrier is given back with the report.
    intro polyfill e hpolyfill hfails
    have hcarrier : prepareCarrier (surroundings conventions classpath batch) old
        = (old, [.malformed (.ofMethod old.name conventions.replacementFactory "") e.message]) := by
      unfold prepareCarrier
      simp only [hpolyfill, hfails]
      rfl
    refine ⟨by rw [hcarrier], hreported ?_⟩
    rw [prepare_snd, hcarrier]
    exact List.mem_append_left _ (List.mem_append_left _ (List.mem_singleton.2 rfl))
  · -- Retyping takes the methods of the prepared carrier in turn.
    intro polyfill hpolyfill c hc before m after e hmethods hfails
    obtain ⟨hd, hover⟩ := retypeAllLocals_takesTurns.reported_of_fails
      (retypeTurn_leavesMalformed _ _) hmethods (retypeTurn_of_error hpolyfill hfails)
    have hname : c.name = old.name := hc ▸ (prepareCarrier_keepsAll _ old).outline.name
    rw [hname] at hd
    refine ⟨hreported ?_, hover⟩
    rw [prepare_snd, ← hc]
    exact List.mem_append_left _ (List.mem_append_right _ hd)
  · -- What becomes of a forwarder has been settled for all of weaving.
    intro hclass interfaceName hinterface f hf
    have houtline := (kept_of_getElem? hold hnew).outline
    have hclass : new.isInterface = false := houtline.isInterface_eq.trans hclass
    have hgets := declares_or_reported_weave (List.mem_of_getElem? hnew) hclass
      (houtline.name ▸ hinterface) hf
    rwa [houtline.name] at hgets
  · -- Redirecting takes the methods of the prepared class in turn, in the second surroundings.
    intro c hc before m after e hmethods hfails
    obtain ⟨hd, hover⟩ := redirectCalls_takesTurns.reported_of_fails
      (redirectTurn_leavesMalformed _ _) hmethods (redirectTurn_of_error hfails)
    have hname : c.name = old.name := hc ▸ (prepare_keepsAll _ old).outline.name
    have hmem : c ∈ phaseClasses prepare conventions classpath batch :=
      hc.trans hprepared.symm ▸ hmem
    rw [← hname]
    exact ⟨mem_weave_diagnostics hmem hd, hover⟩

/-- **Which woven classes can be written.** A class that could be written still can if the format
has room for all that it has got, and not otherwise; if it is no carrier, three slots for each
forwarder are enough. What fails while it is added is left out and reported. -/
theorem bytes_weave (conventions : Conventions) (classpath : ClassIndex) (batch : List ClassFile)
    (hpools : ∀ c ∈ batch, Reachable c.pool) :
    List.Forall₂ (fun old new => (∃ bs, old.bytes = .ok bs) → new.pool.size ≤ 65535
        ∧ ((∃ bs, new.bytes = .ok bs) ↔ HasRoom old new)
        ∧ (conventions.isLambdaCarrier old.name = false → HasSlots old new →
          ∃ bs, new.bytes = .ok bs)
        ∧ LeavesOut (surroundings conventions classpath batch)
          (surroundings conventions classpath (phaseClasses prepare conventions classpath batch))
          old new (weave conventions classpath batch).diagnostics)
      batch (weave conventions classpath batch).classes := by
  have hkept := kept_weave conventions classpath batch
  refine List.forall₂_iff_get.2 ⟨hkept.length_eq, fun k hk hk' hwritten => ?_⟩
  have hpool := hpools _ (List.get_mem batch ⟨k, hk⟩)
  have hpool' := reachable_weave hpools _ (List.get_mem _ ⟨k, hk'⟩)
  refine ⟨hpool'.consistent.size_le, (hkept.get hk hk').bytes_ok_iff hpool hpool' hwritten,
    (hkept.get hk hk').exists_bytes hpool hpool' hwritten, ?_⟩
  exact leavesOut_weave (List.getElem?_eq_getElem hk) (List.getElem?_eq_getElem hk')

end Batch

/-- A class `A` with the interface `I` and no method. -/
def classOfI : Bytes :=
  [202, 254, 186, 190, 0, 0, 0, 50, 0, 7, 1, 0, 1, 65, 7, 0, 1, 1, 0, 16, 106, 97, 118, 97, 47,
   108, 97, 110, 103, 47, 79, 98, 106, 101, 99, 116, 7, 0, 3, 1, 0, 1, 73, 7, 0, 5, 0, 33, 0, 2,
   0, 4, 0, 1, 0, 6, 0, 0, 0, 0, 0, 0]

/-- The interface `I`, with a method `m` without a body. -/
def interfaceI : Bytes :=
  [202, 254, 186, 190, 0, 0, 0, 50, 0, 7, 1, 0, 1, 73, 7, 0, 1, 1, 0, 16, 106, 97, 118, 97, 47,
   108, 97, 110, 103, 47, 79, 98, 106, 101, 99, 116, 7, 0, 3, 1, 0, 1, 109, 1, 0, 3, 40, 41, 86,
   6, 1, 0, 2, 0, 4, 0, 0, 0, 0, 0, 1, 4, 1, 0, 5, 0, 6, 0, 0, 0, 0]

/-- The companion of `I`, which implements `m`. -/
def companionOfI : Bytes :=
  [202, 254, 186, 190, 0, 0, 0, 50, 0, 8, 1, 0, 2, 73, 36, 7, 0, 1, 1, 0, 16, 106, 97, 118, 97,
   47, 108, 97, 110, 103, 47, 79, 98, 106, 101, 99, 116, 7, 0, 3, 1, 0, 1, 109, 1, 0, 6, 40, 76,
   73, 59, 41, 86, 1, 0, 4, 67, 111, 100, 101, 0, 33, 0, 2, 0, 4, 0, 0, 0, 0, 0, 1, 0, 9, 0, 5,
   0, 6, 0, 1, 0, 7, 0, 0, 0, 13, 0, 0, 0, 1, 0, 0, 0, 1, 177, 0, 0, 0, 0, 0, 0]

/-- The class gets a forwarder, for which there are slots. Its old form could be written, and so can
the new one. -/
theorem bytes_weave_forwarder : ∃ conventions old stub companion,
    polyfillsInR.conventions = .ok conventions ∧ ClassFile.parse classOfI = .ok old
      ∧ ClassFile.parse interfaceI = .ok stub ∧ ClassFile.parse companionOfI = .ok companion
      ∧ (∃ bs, old.bytes = .ok bs)
      ∧ ∃ new, (weave conventions (.ofClasses [stub, companion]) [old]).classes = [new]
        ∧ new.methods.length = old.methods.length + 1 ∧ HasSlots old new
        ∧ new.pool.size ≤ 65535 ∧ HasRoom old new ∧ ∃ bs, new.bytes = .ok bs := by
  have hwoven : (do
      let conventions ← polyfillsInR.conventions.toOption
      let old ← (ClassFile.parse classOfI).toOption
      let stub ← (ClassFile.parse interfaceI).toOption
      let companion ← (ClassFile.parse companionOfI).toOption
      let classes := (weave conventions (.ofClasses [stub, companion]) [old]).classes
      let new ← classes.head?
      return decide (classes.length = 1 ∧ (∃ bs, old.bytes = .ok bs)
        ∧ new.methods.length = old.methods.length + 1
        ∧ conventions.isLambdaCarrier old.name = false ∧ HasSlots old new)) = some true := by
    decide +kernel
  simp only [toOption_bind_eq_some] at hwoven
  obtain ⟨conventions, hconventions, old, hold, stub, hstub, companion, hcompanion, hnew⟩ := hwoven
  obtain ⟨new, hnew, hchecked⟩ := Option.bind_eq_some_iff.1 hnew
  obtain ⟨hone, hbytes, hlength, hcarrier, hslots⟩ := of_decide_eq_true (Option.some.inj hchecked)
  have hclasses := eq_singleton_of_head? hone hnew
  -- What is evaluated are the slots. That they suffice is the theorem's part.
  have hgets := bytes_weave conventions (.ofClasses [stub, companion]) [old]
    (List.forall_mem_singleton.2 (reachable_of_parse hold))
  rw [hclasses, List.forall₂_cons] at hgets
  obtain ⟨hsize, hroom, henough, _⟩ := hgets.1 hbytes
  have hwritten := henough hcarrier hslots
  exact ⟨conventions, old, stub, companion, hconventions, hold, hstub, hcompanion, hbytes, new,
    hclasses, hlength, hslots, hsize, hroom.1 hwritten, hwritten⟩

end Weave
end ClassLoom
