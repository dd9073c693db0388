import ClassLoom.Proofs.Weave.PassedOver
import ClassLoom.Proofs.Weave.Declared

/-!
# Local variables that stay retyped

Once the local variables of a class have been retyped, none of its methods has one of the old type,
and that stays so through the steps that follow (`LostLocals`): forwarders come without tables of
variables, and redirecting calls leaves the types in tables as they are. It is known where nothing
has been reported, since a table that cannot be read could turn out to have such a variable when the
pool has grown.

* `forall_takeTurns`: what every turn leaves of a method, while the pool grows;
* `lostLocals_prepare`, `lostLocals_redirectCalls`: the methods of a class, step by step;
* `retypeLocals_ne_some`: nothing is left to be retyped.
-/

namespace ClassLoom.Weave

open ConstantPool
open Interning (Appends)

/-- Whether nothing that is reported is about a member that cannot be read or written. -/
def Unreported (diagnostics : List Diagnostic) : Prop :=
  ∀ d ∈ diagnostics, ∀ message, d.finding ≠ .malformedMember message

theorem unresolved_ne_malformed (polyfill name descriptor message : String) :
    Finding.unresolvedMixinMethod polyfill name descriptor ≠ .malformedMember message :=
  nofun

instance decidableNotMalformed (finding : Finding) :
    Decidable (∀ message, finding ≠ .malformedMember message) :=
  match finding with
  | .unresolvedMixinMethod polyfill name descriptor =>
    .isTrue (unresolved_ne_malformed polyfill name descriptor)
  | .malformedMember message => .isFalse fun h => h message rfl

instance (diagnostics : List Diagnostic) : Decidable (Unreported diagnostics) :=
  inferInstanceAs (Decidable (∀ d ∈ diagnostics, _))

theorem unreported_append {front back : List Diagnostic} :
    Unreported (front ++ back) ↔ Unreported front ∧ Unreported back :=
  List.forall_mem_append

/-! ## Turns

Methods are taken one after the other, with a pool that grows under way. What is shown of one turn
is carried over them once. -/

section Turns

/-- What holds of every method before its turn, and of what it becomes, while the pool grows. By
induction on the methods, where each turn takes the pool that the one before has left. -/
theorem forall_takeTurns {turn : Turn} {P Q : ConstantPool → Member → Prop}
    (hgrows : ∀ pool m, GrowsTo pool (turn pool m).2.1)
    (hbefore : ∀ ⦃pool pool' m⦄, Grown pool pool' → P pool m → P pool' m)
    (hbehind : ∀ ⦃pool pool' m⦄, Grown pool pool' → Q pool m → Q pool' m)
    (hturn : ∀ pool m, Reachable pool → P pool m → Unreported (turn pool m).2.2 →
      Q (turn pool m).2.1 (turn pool m).1)
    {pool : ConstantPool} {ms : List Member} (hpool : Reachable pool) (hms : ∀ m ∈ ms, P pool m)
    (hunreported : Unreported (takeTurns turn pool ms).2.2) :
    Grown pool (takeTurns turn pool ms).2.1
      ∧ ∀ m ∈ (takeTurns turn pool ms).1, Q (takeTurns turn pool ms).2.1 m := by
  induction ms generalizing pool with
  | nil => exact ⟨Grown.refl pool, nofun⟩
  | cons m rest ih =>
    obtain ⟨hm, hrest⟩ := List.forall_mem_cons.1 hms
    obtain ⟨hone, hmore⟩ := unreported_append.1 hunreported
    have hmid := hgrows pool m
    obtain ⟨hgrown, hall⟩ := ih (hmid.reachable hpool)
      (fun m' hm' => hbefore hmid.grown (hrest m' hm')) hmore
    exact ⟨hmid.grown.trans hgrown,
      List.forall_mem_cons.2 ⟨hbehind hgrown (hturn pool m hpool hm hone), hall⟩⟩

/-- A turn of redirecting only adds to the pool, also where it fails. -/
theorem redirectTurn_growsTo (s : Surroundings) (className : String) (pool : ConstantPool)
    (m : Member) : GrowsTo pool (redirectTurn s className pool m).2.1 := by
  unfold redirectTurn
  split
  · next hrun => exact (appends_redirectMethod s className m).growsTo (Interning.on_eq_ok.1 hrun)
  · exact GrowsTo.refl pool

/-- So does a turn of retyping. -/
theorem retypeTurn_growsTo (s : Surroundings) (className : String) (pool : ConstantPool)
    (m : Member) : GrowsTo pool (retypeTurn s className pool m).2.1 := by
  unfold retypeTurn
  split
  · exact GrowsTo.refl pool
  · split
    · next hrun => exact (appends_retypeLocals _ _ m).growsTo (Interning.on_eq_ok.1 hrun)
    · exact GrowsTo.refl pool
    · exact GrowsTo.refl pool

end Turns

/-! ## Methods without variables of a type

A table of variables names its types by indices into the pool. An index that names nothing now could
name the type to retype when the pool has grown, so a method has lost its variables only where the
tables can be read. -/

/-- Whether a method has no variables of the given type, now and when the pool has grown. -/
def LostLocals (descriptor : String) (pool : ConstantPool) (m : Member) : Prop :=
  ∀ later, Grown pool later → ∀ code, m.code? later = .ok (some code) →
    ¬ code.DeclaresLocal later descriptor

section LostLocals

variable {s : Surroundings} {descriptor legacy polyfill className : String}
  {pool pool' : ConstantPool} {m m' : Member}

theorem LostLocals.grown (hgrown : Grown pool pool') (h : LostLocals descriptor pool m) :
    LostLocals descriptor pool' m :=
  fun later hlater => h later (hgrown.trans hlater)

/-- A body whose tables can all be read has no other variables when the pool has grown. -/
theorem lostLocals_of_tables {code : Code} (hcode : m.code? pool = .ok (some code))
    (htables : ∀ a ∈ code.attributes, a.name = LocalVariable.tableName →
      ∃ entries, LocalVariable.parseTable pool a.info = .ok entries
        ∧ ∀ v ∈ entries, v.descriptor ≠ descriptor) : LostLocals descriptor pool m := by
  rintro later hgrown code' hcode' ⟨a, ha, hname, entries, hparse, v, hv, hdescriptor⟩
  rw [Member.code?_grown hgrown hcode] at hcode'
  cases hcode'
  obtain ⟨found, hfound, hnone⟩ := htables a ha hname
  rw [LocalVariable.parseTable_grown hgrown hfound] at hparse
  cases hparse
  exact hnone v hv hdescriptor

/-- A retyped method has lost the variables of the old type. -/
theorem lostLocals_of_retyped (hne : polyfill ≠ legacy) (hpool : Reachable pool)
    (h : retypeLocals legacy polyfill m pool = .ok (some m') pool') :
    LostLocals legacy pool' m' := by
  obtain ⟨code, code', tables, _, hgiven, hrenumbers⟩ := renumbersLocals_of_retypeLocals hpool h
  refine lostLocals_of_tables (hgiven.code? []) fun a ha hname => ?_
  obtain ⟨entries, hentries, hparse⟩ := LocalVariable.exists_mem_tables hrenumbers.after ha hname
  obtain ⟨t, ht, rfl⟩ := List.mem_map.1 hentries
  exact ⟨t.2, hparse, fun v hv => (hrenumbers.renumbered t ht).descriptor_ne hne hv⟩

/-- A method that is not retyped had no variables of the old type: its tables have been read to find
that out. -/
theorem lostLocals_of_not_retyped (h : retypeLocals legacy polyfill m pool = .ok none pool') :
    LostLocals legacy pool m := by
  have h := Interning.get_bind_eq_ok.1 h
  obtain ⟨found, hfound, h⟩ := Interning.lift_bind_eq_ok.1 h
  cases found with
  | none =>
    intro later hgrown code hcode
    rw [Member.code?_grown hgrown hfound] at hcode
    cases hcode
  | some code =>
    -- A body without such a variable in any of its tables.
    obtain ⟨tables, htables, h⟩ := Interning.lift_bind_eq_ok.1 h
    simp only at h
    split at h
    · next hnone =>
      rw [Bool.not_eq_true', List.any_eq_false] at hnone
      refine lostLocals_of_tables hfound fun a ha hname => ?_
      obtain ⟨t, ht, hvariables⟩ := exists_of_mem_left (mapM_eq_ok.1 htables) ha
      obtain ⟨_, hsome, hparsed⟩ := variablesOf_eq_ok hvariables
      obtain ⟨entries, hentries⟩ := Option.isSome_iff_exists.1 (hsome hname)
      refine ⟨entries, (hparsed entries hentries).2, fun v hv hdescriptor => hnone t ht ?_⟩
      rw [hentries]
      exact List.any_eq_true.2 ⟨v, hv, decide_eq_true hdescriptor⟩
    · -- With such a variable the run ends in a method, or fails.
      obtain ⟨⟨attributes, r⟩, mid, _, h⟩ := Interning.bind_eq_ok.1 h
      obtain ⟨followed, mid', _, h⟩ := Interning.bind_eq_ok.1 h
      simp only at h
      split at h
      · cases h
      · obtain ⟨_, _, _, hend⟩ := Interning.bind_eq_ok.1 h
        cases (Interning.pure_eq_ok.1 hend).1

/-- Forwarders come without tables of variables. -/
theorem lostLocals_of_method {f : Forwarder} (hpool : Reachable pool)
    (h : f.method pool = .ok m pool') : LostLocals descriptor pool' m := by
  rintro later hgrown code hcode ⟨a, ha, _⟩
  obtain ⟨target, mid, htarget, h⟩ := Interning.bind_eq_ok.1 h
  obtain ⟨bytecode, _, h⟩ := Interning.lift_bind_eq_ok.1 h
  have hmid := (appends_internMember _).reachable_of_ok hpool htarget
  have hsame := Member.eq_of_code?_setCode hmid.consistent.located h hgrown hcode
  rw [hsame] at ha
  cases ha

/-- **Redirecting the calls of a method brings no variables back.** Patching moves ranges and keeps
what they declare. -/
theorem LostLocals.redirectMethod {diagnostics : List Diagnostic} (hpool : Reachable pool)
    (hlost : LostLocals descriptor pool m)
    (h : redirectMethod s className m pool = .ok (m', diagnostics) pool') :
    LostLocals descriptor pool' m' := by
  cases redirectMethod_eq_ok h with
  | bodiless => exact hlost
  | untouched => exact hlost
  | redirected code redirected sites _ _ mid _ hcode _ _ hredirected hset =>
    intro later hgrown code' hcode' hdeclares
    have hmid := (appends_redirectCode s className m code sites).reachable_of_ok hpool hredirected
    have hlater : Grown pool later :=
      ((appends_redirectMethod s className m).grown_of_ok h).trans hgrown
    rw [Member.eq_of_code?_setCode hmid.consistent.located hset hgrown hcode'] at hdeclares
    exact hlost later hlater code (Member.code?_grown hlater hcode)
      (declaresLocal_of_redirectCode hredirected hdeclares)

/-- Nothing is left to be retyped in a method without variables of the old type. -/
theorem LostLocals.retypeLocals_ne_some (hlost : LostLocals legacy pool m)
    (hne : polyfill ≠ legacy) (hpool : Reachable pool) :
    retypeLocals legacy polyfill m pool ≠ .ok (some m') pool' := by
  intro h
  obtain ⟨code, _, hcode, hdeclares, _⟩ := declaresLocal_of_retypeLocals hne hpool h
  exact hlost pool (Grown.refl pool) code hcode hdeclares

end LostLocals

/-! ## Classes

The statement about a class goes through the three steps that come behind retyping or bring methods
in front of it. -/

section Class

variable {s s' : Surroundings} {c : ClassFile}

/-- What a class has lost when its variables have been retyped and nothing was reported: every
variable of the old type has got the new one. -/
theorem lostLocals_retypeAllLocals {polyfill : Polyfill}
    (hpolyfill : s.polyfill? s.conventions.localVariableType = some polyfill)
    (hpool : Reachable c.pool) (h : Unreported (retypeAllLocals s c).2) :
    ∀ m ∈ (retypeAllLocals s c).1.methods,
      LostLocals (descriptorOf s.conventions.localVariableType) (retypeAllLocals s c).1.pool m := by
  have hturns := retypeAllLocals_takesTurns s c
  rw [hturns] at h
  have hall := (forall_takeTurns (P := fun _ _ => True)
    (Q := LostLocals (descriptorOf s.conventions.localVariableType)) (retypeTurn_growsTo s c.name)
    (fun _ _ _ _ _ => trivial) (fun _ _ _ => LostLocals.grown) (fun pool m hpool _ hturn => ?_)
    hpool (fun _ _ => trivial) h).2
  · rw [hturns]
    exact hall
  -- A method has lost its variables of the type when its turn is over, and never gets any back.
  · unfold retypeTurn at hturn ⊢
    simp only [hpolyfill] at hturn ⊢
    split at hturn
    · next hrun =>
      exact lostLocals_of_retyped (descriptorOf_ne hpolyfill) hpool (Interning.on_eq_ok.1 hrun)
    · next hrun => exact lostLocals_of_not_retyped (Interning.on_eq_ok.1 hrun)
    · -- A method that cannot be retyped is reported.
      exact absurd rfl (hturn _ (List.mem_singleton.2 rfl) _)

/-- Where a method of a class with forwarders comes from: it has been there, or a forwarder has been
made, with the pool that there was then. -/
theorem mem_methods_foldl_addTo {fs : List Forwarder} {ds : List Diagnostic} {m : Member}
    (h : m ∈ (fs.foldl Forwarder.addTo (c, ds)).1.methods) :
    m ∈ c.methods ∨ ∃ f ∈ fs, ∃ before after, GrowsTo c.pool before
      ∧ f.method before = .ok m after
      ∧ Grown after (fs.foldl Forwarder.addTo (c, ds)).1.pool := by
  induction fs generalizing c ds with
  | nil => exact .inl h
  | cons f fs ih =>
    rw [List.foldl_cons] at h ⊢
    have hcases := addTo_cases c ds f
    generalize Forwarder.addTo (c, ds) f = next at h hcases ⊢
    obtain ⟨c', found⟩ := next
    simp only at hcases
    -- The first forwarder is passed over, or put behind the methods; the others start from there.
    rcases hcases with ⟨rfl, _⟩ | ⟨made, pool, hmade, rfl⟩
    · rcases ih h with hold | ⟨g, hg, hrest⟩
      · exact .inl hold
      · exact .inr ⟨g, List.mem_cons_of_mem f hg, hrest⟩
    · have hgrows := f.appends_method.growsTo hmade
      have hlater := (foldl_addTo_extends fs
        { c with methods := c.methods ++ [made], pool } found).pool.grown
      rcases ih h with hold | ⟨g, hg, before, after, hbefore, hmethod, hafter⟩
      · rcases List.mem_append.1 hold with hold | hnew
        · exact .inl hold
        · rw [List.mem_singleton.1 hnew]
          exact .inr ⟨f, List.mem_cons_self .., c.pool, pool, .refl c.pool, hmade, hlater⟩
      · exact .inr ⟨g, List.mem_cons_of_mem f hg, before, after, hgrows.trans hbefore, hmethod,
          hafter⟩

/-- Where a method of a class that has got its forwarders comes from. -/
theorem mem_methods_addForwarders {m : Member} (h : m ∈ (addForwarders s c).1.methods) :
    m ∈ c.methods ∨ ∃ f ∈ Forwarder.needed s c, ∃ before after, GrowsTo c.pool before
      ∧ f.method before = .ok m after ∧ Grown after (addForwarders s c).1.pool := by
  unfold addForwarders at h ⊢
  split at h
  · exact .inl h
  · next hclass =>
    rw [if_neg hclass]
    exact mem_methods_foldl_addTo h

/-- **A class that has been prepared** without a report has no variables of the old type, if that
has a polyfill. -/
theorem lostLocals_prepare {polyfill : Polyfill}
    (hpolyfill : s.polyfill? s.conventions.localVariableType = some polyfill)
    (hpool : Reachable c.pool) (h : Unreported (prepare s c).2) :
    ∀ m ∈ (prepare s c).1.methods,
      LostLocals (descriptorOf s.conventions.localVariableType) (prepare s c).1.pool m := by
  rw [prepare_snd] at h
  obtain ⟨hbefore, _⟩ := unreported_append.1 h
  obtain ⟨_, hretyped⟩ := unreported_append.1 hbefore
  have hcarrier := (prepareCarrier_extends s c).pool.reachable hpool
  have hlost := lostLocals_retypeAllLocals hpolyfill hcarrier hretyped
  have hretypedPool := (retypeAllLocals_extends s (prepareCarrier s c).1).pool.reachable hcarrier
  have hgrown := (addForwarders_extends s (retypeAllLocals s (prepareCarrier s c).1).1).pool.grown
  rw [prepare_fst]
  intro m hm
  rcases mem_methods_addForwarders hm with hold | ⟨f, _, before, after, hbefore, hmethod, hafter⟩
  · exact (hlost m hold).grown hgrown
  · exact (lostLocals_of_method (hbefore.reachable hretypedPool) hmethod).grown hafter

/-- **Redirecting the calls of a class brings no variables back.** This is so method by method. -/
theorem lostLocals_redirectCalls {descriptor : String} (hpool : Reachable c.pool)
    (hlost : ∀ m ∈ c.methods, LostLocals descriptor c.pool m) (h : Unreported (redirectCalls s c).2) :
    ∀ m ∈ (redirectCalls s c).1.methods, LostLocals descriptor (redirectCalls s c).1.pool m := by
  have hturns := redirectCalls_takesTurns s c
  rw [hturns] at h
  have hall := (forall_takeTurns (P := LostLocals descriptor) (Q := LostLocals descriptor)
    (redirectTurn_growsTo s c.name) (fun _ _ _ => LostLocals.grown) (fun _ _ _ => LostLocals.grown)
    (fun pool m hpool hlost _ => ?_) hpool hlost h).2
  · rw [hturns]
    exact hall
  · unfold redirectTurn
    split
    · next hrun => exact hlost.redirectMethod hpool (Interning.on_eq_ok.1 hrun)
    · exact hlost

end Class

end ClassLoom.Weave
