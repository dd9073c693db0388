import ClassLoom.Proofs.Code.RoundTrip
import ClassLoom.Proofs.Weave.Emission
import ClassLoom.Weave.LocalRetyping

/-!
# Methods one after the other

Redirecting calls and retyping local variables take the methods of a class in turn, and what
fails on a method leaves the method and the pool as they were. `attemptAll` is the part that
both have in common.

* `redirectMethod_eq_ok`, `retypeLocals_eq_some`: what the two steps do to a method;
* `redirectCalls_fst`, `retypeAllLocals_fst`: the classes that they give;
* `attemptAll_of_size_le`: what happened to the methods where the pool got no slots.
-/

namespace ClassLoom.Weave

open ConstantPool
open Interning (Appends)

/-- Something that is tried on a method, in a class with the given pool. -/
abbrev Attempt := ConstantPool → Member → Option (Member × ConstantPool)

/-- The methods after an attempt on each of them, and the pool then. -/
def attemptAll (attempt : Attempt) : ConstantPool → List Member → List Member × ConstantPool
  | pool, [] => ([], pool)
  | pool, m :: rest =>
    let (m, pool) := (attempt pool m).getD (m, pool)
    let (rest, pool) := attemptAll attempt pool rest
    (m :: rest, pool)

/-- Whether an attempt only adds slots to the pool. -/
def Attempt.Grows (attempt : Attempt) : Prop :=
  ∀ ⦃pool m m' pool'⦄, attempt pool m = some (m', pool') → GrowsTo pool pool'

/-- Whether an attempt in a class with the given pool leaves the method `m'` of `m`, and the
pool as it is. -/
def Attempt.Leaves (attempt : Attempt) (pool : ConstantPool) (m m' : Member) : Prop :=
  attempt pool m = some (m', pool) ∨ attempt pool m = none ∧ m' = m

section AttemptAll

variable {attempt : Attempt} {pool : ConstantPool} {ms : List Member}

theorem length_attemptAll : (attemptAll attempt pool ms).1.length = ms.length := by
  induction ms generalizing pool with
  | nil => rfl
  | cons m ms ih => simp only [attemptAll, List.length_cons, ih]

/-- A fold that puts the outcome of each attempt in front of those before it. This is the form that
the weaver has; the list is reversed at its end. -/
theorem foldl_attempt {α : Type}
    {next : List Member × ConstantPool × α → Member → List Member × ConstantPool × α}
    (hnext : ∀ done pool more m, ∃ more',
      next (done, pool, more) m = (((attempt pool m).getD (m, pool)).1 :: done,
        ((attempt pool m).getD (m, pool)).2, more'))
    (ms : List Member) (done : List Member) (pool : ConstantPool) (more : α) :
    ∃ more', ms.foldl next (done, pool, more)
      = ((attemptAll attempt pool ms).1.reverse ++ done, (attemptAll attempt pool ms).2, more') := by
  induction ms generalizing done pool more with
  | nil => exact ⟨more, rfl⟩
  | cons m ms ih =>
    obtain ⟨found, hfound⟩ := hnext done pool more m
    obtain ⟨more', hmore'⟩ := ih (((attempt pool m).getD (m, pool)).1 :: done)
      ((attempt pool m).getD (m, pool)).2 found
    refine ⟨more', ?_⟩
    rw [List.foldl_cons, hfound, hmore']
    simp only [attemptAll, List.reverse_cons, List.append_assoc, List.singleton_append]

/-- An attempt that fails leaves the pool as it is, so the pool grows in either case. -/
theorem Attempt.Grows.getD (h : attempt.Grows) (pool : ConstantPool) (m : Member) :
    GrowsTo pool ((attempt pool m).getD (m, pool)).2 := by
  cases hattempt : attempt pool m with
  | none => exact GrowsTo.refl pool
  | some result => exact h hattempt

/-- All attempts together only add slots. -/
theorem Attempt.Grows.attemptAll (h : attempt.Grows) (pool : ConstantPool) (ms : List Member) :
    GrowsTo pool (attemptAll attempt pool ms).2 := by
  induction ms generalizing pool with
  | nil => exact GrowsTo.refl pool
  | cons m ms ih => exact (h.getD pool m).trans (ih _)

/-- **Where the pool gets no slots**, every method has been taken through the attempt with the same
pool. An attempt that had added a slot would have made the pool larger for good. -/
theorem attemptAll_of_size_le (h : attempt.Grows)
    (hsize : (attemptAll attempt pool ms).2.size ≤ pool.size) :
    List.Forall₂ (attempt.Leaves pool) ms (attemptAll attempt pool ms).1 := by
  induction ms generalizing pool with
  | nil => exact .nil
  | cons m ms ih =>
    have hhead := h.getD pool m
    have htail := h.attemptAll ((attempt pool m).getD (m, pool)).2 ms
    have hle := htail.grown.size_le
    -- The pool only grows. If it is as large in the end as at the start, no method has changed it.
    have hsame : ((attempt pool m).getD (m, pool)).2 = pool := hhead.unchanged (Nat.le_trans hle hsize)
    simp only [attemptAll] at hsize ⊢
    rw [hsame] at hsize ⊢
    refine .cons ?_ (ih hsize)
    cases hattempt : attempt pool m with
    | none => exact .inr ⟨hattempt, rfl⟩
    | some result =>
      obtain ⟨m', pool'⟩ := result
      rw [hattempt] at hsame
      have hpool : pool' = pool := hsame
      rw [hpool] at hattempt
      exact .inl hattempt

/-- Attempts that each leave a method as it is do so together. -/
theorem attemptAll_eq_self (h : ∀ m ∈ ms, (attempt pool m).getD (m, pool) = (m, pool)) :
    attemptAll attempt pool ms = (ms, pool) := by
  induction ms with
  | nil => rfl
  | cons m ms ih =>
    obtain ⟨hhead, htail⟩ := List.forall_mem_cons.1 h
    rw [attemptAll, hhead]
    simp only [ih htail]

end AttemptAll

/-! ## Redirecting calls

All that redirecting does to a pool is to append, whether it succeeds or not. What it gives then
follows the three ways through the definition. -/

theorem appends_patchFor (base : UInt16) (sites : List CallSite) :
    Appends (CallSite.patchFor base sites) :=
  Appends.foldlM fun state site _ => CallSite.appends_patchOne base state site

/-- Redirecting a body interns what is emitted, and what the new frames name. -/
theorem appends_redirectCode (s : Surroundings) (className : String) (m : Member) (code : Code)
    (sites : List CallSite) : Appends (redirectCode s className m code sites) := by
  refine (appends_patchFor code.maxLocals sites).bind fun ⟨patch, width⟩ => ?_
  refine (Appends.lift (patch.apply code)).bind fun patched => ?_
  simp only
  split
  · exact .throw _
  · exact Typing.appends_retype.bind fun _ => .pure _

/-- Redirecting a method interns nothing else than its body does. Even where it fails, what it has
added stands behind what was there. -/
theorem appends_redirectMethod (s : Surroundings) (className : String) (m : Member) :
    Appends (redirectMethod s className m) := by
  refine Appends.get.bind fun pool => (Appends.lift (m.code? pool)).bind fun found => ?_
  cases found with
  | none => exact .pure _
  | some code =>
    refine (Appends.lift _).bind fun ⟨sites, diagnostics⟩ => ?_
    simp only
    split
    · exact .pure _
    · refine (appends_redirectCode s className m code sites).bind fun code => ?_
      exact (m.appends_setCode code).bind fun _ => .pure _

/-- How the calls of a method are redirected, and in which pool that ends. -/
inductive RedirectsMethod (s : Surroundings) (className : String) (m : Member)
    (pool : ConstantPool) : Member × List Diagnostic → ConstantPool → Prop where
  | bodiless (hcode : m.code? pool = .ok none) : RedirectsMethod s className m pool (m, []) pool
  | untouched (code : Code) (diagnostics : List Diagnostic) (hcode : m.code? pool = .ok (some code))
    (hplan : CallSite.planAll s pool (.ofMethod className m.name m.descriptor) code
      = .ok ([], diagnostics)) : RedirectsMethod s className m pool (m, diagnostics) pool
  | redirected (code redirected : Code) (sites : List CallSite) (diagnostics : List Diagnostic)
    (m' : Member) (mid last : ConstantPool) (hcode : m.code? pool = .ok (some code))
    (hplan : CallSite.planAll s pool (.ofMethod className m.name m.descriptor) code
      = .ok (sites, diagnostics)) (hsites : sites ≠ [])
    (hredirected : redirectCode s className m code sites pool = .ok redirected mid)
    (hset : m.setCode redirected mid = .ok m' last) :
    RedirectsMethod s className m pool (m', diagnostics) last

/-- All that redirecting the calls of a method can do: it has no body, or no site in it, or the body
is redirected and set. -/
theorem redirectMethod_eq_ok {s : Surroundings} {className : String} {m : Member}
    {pool last : ConstantPool} {result : Member × List Diagnostic}
    (h : redirectMethod s className m pool = .ok result last) :
    RedirectsMethod s className m pool result last := by
  have h := Interning.get_bind_eq_ok.1 h
  obtain ⟨found, hcode, h⟩ := Interning.lift_bind_eq_ok.1 h
  -- A method without a body, one without sites, and one whose body is redirected.
  cases found with
  | none =>
    obtain ⟨rfl, rfl⟩ := Interning.pure_eq_ok.1 h
    exact .bodiless hcode
  | some code =>
    obtain ⟨⟨sites, diagnostics⟩, hplan, h⟩ := Interning.lift_bind_eq_ok.1 h
    simp only at h
    split at h
    · next hempty =>
      obtain ⟨rfl, rfl⟩ := Interning.pure_eq_ok.1 h
      obtain rfl := List.isEmpty_iff.1 hempty
      exact .untouched code diagnostics hcode hplan
    · next hnonempty =>
      obtain ⟨redirected, mid, hredirected, h⟩ := Interning.bind_eq_ok.1 h
      obtain ⟨m', last', hset, hend⟩ := Interning.bind_eq_ok.1 h
      obtain ⟨rfl, rfl⟩ := Interning.pure_eq_ok.1 hend
      exact .redirected code redirected sites diagnostics m' mid _ hcode hplan
        (by simpa using hnonempty) hredirected hset

/-- The attempt to redirect the calls of a method. -/
def redirecting (s : Surroundings) (className : String) : Attempt := fun pool m =>
  match redirectMethod s className m pool with
  | .ok (m, _) pool => some (m, pool)
  | .error _ _ => none

/-- The attempt has a result where redirecting has one. Its diagnostics are left out here. -/
theorem redirecting_eq_some {s : Surroundings} {className : String} {m m' : Member}
    {pool pool' : ConstantPool} : redirecting s className pool m = some (m', pool')
      ↔ ∃ diagnostics, redirectMethod s className m pool = .ok (m', diagnostics) pool' := by
  unfold redirecting
  cases redirectMethod s className m pool with
  | ok result mid => simp [Prod.ext_iff]
  | error e mid => simp

/-- Redirecting the calls of a method only adds slots. -/
theorem redirecting_grows (s : Surroundings) (className : String) :
    (redirecting s className).Grows := by
  intro pool m m' pool' h
  obtain ⟨diagnostics, hrun⟩ := redirecting_eq_some.1 h
  exact (appends_redirectMethod s className m).growsTo hrun

/-- The classes that redirecting gives, with the methods as attempts. Diagnostics do not act upon
methods. -/
theorem redirectCalls_fst (s : Surroundings) (c : ClassFile) :
    (redirectCalls s c).1 = { c with
      methods := (attemptAll (redirecting s c.name) c.pool c.methods).1
      pool := (attemptAll (redirecting s c.name) c.pool c.methods).2 } := by
  have hnext (done : List Member) (pool : ConstantPool) (diagnostics : List Diagnostic)
      (m : Member) : ∃ diagnostics', redirectNext s c.name (done, pool, diagnostics) m
        = (((redirecting s c.name pool m).getD (m, pool)).1 :: done,
          ((redirecting s c.name pool m).getD (m, pool)).2, diagnostics') := by
    simp only [redirectNext, redirecting, Interning.on]
    cases redirectMethod s c.name m pool with
    | ok result mid => exact ⟨_, rfl⟩
    | error e mid => exact ⟨_, rfl⟩
  obtain ⟨diagnostics, hfold⟩ := foldl_attempt hnext c.methods [] c.pool []
  unfold redirectCalls
  rw [hfold]
  simp only [List.append_nil, List.reverse_reverse]

/-! ## Retyping local variables

The same for the retyping of variables. -/

/-- Retyping tables interns the descriptors in them. -/
theorem appends_retypeTables (legacy polyfill : String) (r : Renumbering)
    (tables : List (Attribute × Option (List LocalVariable))) :
    Appends (retypeTables legacy polyfill r tables) := by
  induction tables generalizing r with
  | nil => exact .pure _
  | cons table rest ih =>
    obtain ⟨a, _ | entries⟩ := table
    · exact (ih r).bind fun _ => .pure _
    · refine (Appends.lift _).bind fun ⟨renumbered, total⟩ => ?_
      refine (LocalVariable.appends_tableBytes renumbered).bind fun info => ?_
      exact (ih _).bind fun _ => .pure _

/-- A table with generic types follows the renumbering, and interns nothing else. -/
theorem appends_followSlots (r : Renumbering) (a : Attribute) : Appends (followSlots r a) := by
  unfold followSlots
  split
  · exact .pure _
  · refine Appends.get.bind fun pool => (Appends.lift _).bind fun entries => ?_
    exact (LocalVariable.appends_tableBytes _).bind fun _ => .pure _

/-- Retyping the local variables of a method appends to the pool. What can be new are the
descriptors of variables and the names of attributes. -/
theorem appends_retypeLocals (legacy polyfill : String) (m : Member) :
    Appends (retypeLocals legacy polyfill m) := by
  refine Appends.get.bind fun pool => (Appends.lift (m.code? pool)).bind fun found => ?_
  cases found with
  | none => exact .pure _
  | some code =>
    refine (Appends.lift _).bind fun tables => ?_
    simp only
    split
    · exact .pure _
    · refine (appends_retypeTables legacy polyfill {} tables).bind fun ⟨attributes, r⟩ => ?_
      refine (Appends.mapM fun a _ => appends_followSlots r a).bind fun attributes => ?_
      split
      · exact (Appends.throw _).bind fun _ => (m.appends_setCode _).bind fun _ => .pure _
      · exact (m.appends_setCode _).bind fun _ => .pure _

/-- All that is done where the local variables of a method are retyped. There is a table with the
old type, and then everything that names a slot follows. -/
theorem retypeLocals_eq_some {legacy polyfill : String} {m m' : Member} {pool last : ConstantPool}
    (h : retypeLocals legacy polyfill m pool = .ok (some m') last) :
    ∃ code tables attributes r mid followed mid', m.code? pool = .ok (some code)
      ∧ code.attributes.mapM (variablesOf pool) = .ok tables
      ∧ (∃ t ∈ tables, ∃ v ∈ t.2.getD [], v.descriptor = legacy)
      ∧ retypeTables legacy polyfill {} tables pool = .ok (attributes, r) mid
      ∧ attributes.mapM (followSlots r) mid = .ok followed mid' ∧ r.total ≤ 65535
      ∧ m.setCode { code with
          attributes := followed, maxLocals := max code.maxLocals (UInt16.ofNat r.total) } mid'
        = .ok m' last := by
  have h := Interning.get_bind_eq_ok.1 h
  obtain ⟨found, hcode, h⟩ := Interning.lift_bind_eq_ok.1 h
  -- Every way out but the last gives no method.
  cases found with
  | none =>
    obtain ⟨hnone, _⟩ := Interning.pure_eq_ok.1 h
    cases hnone
  | some code =>
    obtain ⟨tables, htables, h⟩ := Interning.lift_bind_eq_ok.1 h
    simp only at h
    split at h
    · obtain ⟨hnone, _⟩ := Interning.pure_eq_ok.1 h
      cases hnone
    · next hlegacy =>
      obtain ⟨⟨attributes, r⟩, mid, hretyped, h⟩ := Interning.bind_eq_ok.1 h
      obtain ⟨followed, mid', hfollowed, h⟩ := Interning.bind_eq_ok.1 h
      simp only at h
      split at h
      · cases h
      · next htotal =>
        obtain ⟨written, last', hwritten, hend⟩ := Interning.bind_eq_ok.1 h
        obtain ⟨hsome, rfl⟩ := Interning.pure_eq_ok.1 hend
        cases hsome
        exact ⟨code, tables, attributes, r, mid, followed, mid', hcode, htables,
          by simpa using hlegacy, hretyped, hfollowed, Nat.not_lt.1 htotal, hwritten⟩

/-- The attempt to retype the local variables of a method. -/
def retyping (legacy polyfill : String) : Attempt := fun pool m =>
  match retypeLocals legacy polyfill m pool with
  | .ok (some m) pool => some (m, pool)
  | .ok none _ => none
  | .error _ _ => none

/-- The attempt has a result where a method is retyped. One that has nothing to retype gives
none. -/
theorem retyping_eq_some {legacy polyfill : String} {m m' : Member} {pool pool' : ConstantPool} :
    retyping legacy polyfill pool m = some (m', pool')
      ↔ retypeLocals legacy polyfill m pool = .ok (some m') pool' := by
  unfold retyping
  split
  · next h => simp [h]
  · next h => simp [h]
  · next h => simp [h]

theorem retyping_grows (legacy polyfill : String) : (retyping legacy polyfill).Grows := by
  intro pool m m' pool' h
  exact (appends_retypeLocals legacy polyfill m).growsTo (retyping_eq_some.1 h)

/-- The class that retyping gives, with the methods as attempts. What has been reported is left out
here. -/
theorem retypeAllLocals_fst {s : Surroundings} {polyfill : Polyfill}
    (h : s.polyfill? s.conventions.localVariableType = some polyfill) (c : ClassFile) :
    (retypeAllLocals s c).1 = { c with
      methods := (attemptAll (retyping (descriptorOf s.conventions.localVariableType)
        (descriptorOf polyfill.name)) c.pool c.methods).1
      pool := (attemptAll (retyping (descriptorOf s.conventions.localVariableType)
        (descriptorOf polyfill.name)) c.pool c.methods).2 } := by
  -- A turn keeps the method where the attempt gives nothing, and takes its result otherwise.
  have hnext (legacy polyfill : String) (done : List Member) (pool : ConstantPool)
      (diagnostics : List Diagnostic) (m : Member) :
      ∃ diagnostics', retypeNext c.name legacy polyfill (done, pool, diagnostics) m
        = (((retyping legacy polyfill pool m).getD (m, pool)).1 :: done,
          ((retyping legacy polyfill pool m).getD (m, pool)).2, diagnostics') := by
    simp only [retypeNext, retyping, Interning.on]
    cases retypeLocals legacy polyfill m pool with
    | ok result mid => cases result <;> exact ⟨_, rfl⟩
    | error e mid => exact ⟨_, rfl⟩
  obtain ⟨diagnostics, hfold⟩ := foldl_attempt
    (hnext (descriptorOf s.conventions.localVariableType) (descriptorOf polyfill.name))
    c.methods [] c.pool []
  simp only [retypeAllLocals, h, hfold, List.append_nil, List.reverse_reverse]

end ClassLoom.Weave
