import ClassLoom.Proofs.Weave.Kept
import ClassLoom.Proofs.Weave.RedirectedClass

/-!
# Methods that are passed over

Retyping local variables and redirecting calls take the methods of a class in turn
(`takeTurns`), and report on each of them. A method on which they report that it is malformed is
passed over: it stays, the pool stays as it is, and for the methods behind it, it is as if it
were not there.

* `takeTurns_append`: methods behind other ones;
* `passesOver_of_takesTurns`: a step in turns passes over the methods on which it fails;
* `weave_keeps`: what weaving keeps of classes, and of their methods where it fails.
-/

namespace ClassLoom.Weave

open ConstantPool

/-! ## Turns

Both steps that change bodies go through the methods of a class with the pool handed on. What such a
step does to a class is told by what it does in one turn. -/

/-- What becomes of a method in a class with the given pool, the pool then, and the report. -/
abbrev Turn := ConstantPool → Member → Member × ConstantPool × List Diagnostic

/-- The methods after a turn of each of them, the pool then, and all reports in order. -/
def takeTurns (turn : Turn) :
    ConstantPool → List Member → List Member × ConstantPool × List Diagnostic
  | pool, [] => ([], pool, [])
  | pool, m :: rest =>
    let (m, mid, found) := turn pool m
    let (rest, last, more) := takeTurns turn mid rest
    (m :: rest, last, found ++ more)

/-- Whether a turn that reports a malformed member reports it of the method, and changes
nothing. -/
def Turn.LeavesMalformed (turn : Turn) (className : String) : Prop :=
  ∀ pool m, ∀ d ∈ (turn pool m).2.2, ∀ message, d.finding = .malformedMember message →
    d.location = .ofMethod className m.name m.descriptor
      ∧ (turn pool m).1 = m ∧ (turn pool m).2.1 = pool

/-- Methods behind other ones start from the pool that those leave. -/
theorem takeTurns_append (turn : Turn) (pool : ConstantPool) (xs ys : List Member) :
    takeTurns turn pool (xs ++ ys)
      = ((takeTurns turn pool xs).1 ++ (takeTurns turn (takeTurns turn pool xs).2.1 ys).1,
        (takeTurns turn (takeTurns turn pool xs).2.1 ys).2.1,
        (takeTurns turn pool xs).2.2 ++ (takeTurns turn (takeTurns turn pool xs).2.1 ys).2.2) := by
  induction xs generalizing pool with
  | nil => rfl
  | cons x xs ih =>
    rw [List.cons_append, takeTurns, takeTurns]
    simp only [ih, List.cons_append, List.append_assoc]

/-- Every report on methods is made on one of them, with the pool that those before it leave. -/
theorem exists_of_mem_takeTurns {turn : Turn} {pool : ConstantPool} {ms : List Member}
    {d : Diagnostic} (h : d ∈ (takeTurns turn pool ms).2.2) : ∃ before m after,
      ms = before ++ m :: after ∧ d ∈ (turn (takeTurns turn pool before).2.1 m).2.2 := by
  induction ms generalizing pool with
  | nil => cases h
  | cons m ms ih =>
    rw [takeTurns] at h
    rcases List.mem_append.1 h with hhere | hlater
    · exact ⟨[], m, ms, rfl, hhere⟩
    · obtain ⟨before, m', after, rfl, hd⟩ := ih hlater
      exact ⟨m :: before, m', after, rfl, hd⟩

/-- A fold that puts what becomes of each method in front of those before it. Turned around at the
end, they are in the order of the class. -/
theorem foldl_turn {turn : Turn}
    {next : List Member × ConstantPool × List Diagnostic → Member →
      List Member × ConstantPool × List Diagnostic}
    (hnext : ∀ done pool ds m, next (done, pool, ds) m
      = ((turn pool m).1 :: done, (turn pool m).2.1, ds ++ (turn pool m).2.2))
    (ms done : List Member) (pool : ConstantPool) (ds : List Diagnostic) :
    ms.foldl next (done, pool, ds) = ((takeTurns turn pool ms).1.reverse ++ done,
      (takeTurns turn pool ms).2.1, ds ++ (takeTurns turn pool ms).2.2) := by
  induction ms generalizing done pool ds with
  | nil => simp [takeTurns]
  | cons m ms ih =>
    rw [List.foldl_cons, hnext, ih, takeTurns]
    simp only [List.reverse_cons, List.append_assoc, List.singleton_append]

/-! ## The two steps in turns

The steps are folds with all they collect in one accumulator. They are shown to be plain recursions
on the methods, and all that follows uses those. -/

/-- The turn of a method whose calls are redirected. -/
def redirectTurn (s : Surroundings) (className : String) : Turn := fun pool m =>
  match (redirectMethod s className m).on pool with
  | .ok ((m', found), pool') => (m', pool', found)
  | .error e => (m, pool, [.malformed (.ofMethod className m.name m.descriptor) e.message])

/-- The turn of a method whose local variables are retyped, if the type has a polyfill. -/
def retypeTurn (s : Surroundings) (className : String) : Turn := fun pool m =>
  match s.polyfill? s.conventions.localVariableType with
  | none => (m, pool, [])
  | some polyfill =>
    match (retypeLocals (descriptorOf s.conventions.localVariableType)
      (descriptorOf polyfill.name) m).on pool with
    | .ok (some m', pool') => (m', pool', [])
    | .ok (none, _) => (m, pool, [])
    | .error e => (m, pool, [.malformed (.ofMethod className m.name m.descriptor) e.message])

/-- Whether a step takes the methods of a class in the given turns, and changes nothing else of
it but the pool. -/
def Step.TakesTurns (step : Step) (turn : Surroundings → String → Turn) : Prop :=
  ∀ s c, step s c = ({ c with
      methods := (takeTurns (turn s c.name) c.pool c.methods).1
      pool := (takeTurns (turn s c.name) c.pool c.methods).2.1 },
    (takeTurns (turn s c.name) c.pool c.methods).2.2)

/-- Redirecting calls takes the methods in turns. Each turn is an attempt, whose failure is its
report. -/
theorem redirectCalls_takesTurns : Step.TakesTurns redirectCalls redirectTurn := by
  intro s c
  have hnext (done : List Member) (pool : ConstantPool) (ds : List Diagnostic) (m : Member) :
      redirectNext s c.name (done, pool, ds) m = ((redirectTurn s c.name pool m).1 :: done,
        (redirectTurn s c.name pool m).2.1, ds ++ (redirectTurn s c.name pool m).2.2) := by
    simp only [redirectNext, redirectTurn]
    cases (redirectMethod s c.name m).on pool with
    | ok result => rfl
    | error e => rfl
  unfold redirectCalls
  rw [foldl_turn hnext]
  simp only [List.append_nil, List.reverse_reverse, List.nil_append]

/-- Turns that leave the methods and the pool as they are, each with its report. -/
theorem takeTurns_of_still {turn : Turn} {report : ConstantPool → Member → List Diagnostic}
    (h : ∀ pool m, turn pool m = (m, pool, report pool m)) (pool : ConstantPool)
    (ms : List Member) : takeTurns turn pool ms = (ms, pool, ms.flatMap (report pool)) := by
  induction ms with
  | nil => rfl
  | cons m ms ih =>
    rw [takeTurns, h]
    simp only [ih, List.flatMap_cons]

/-- Retyping takes the methods in turns. Where the type has no polyfill, each turn does nothing. -/
theorem retypeAllLocals_takesTurns : Step.TakesTurns retypeAllLocals retypeTurn := by
  intro s c
  cases hpolyfill : s.polyfill? s.conventions.localVariableType with
  | none =>
    have hstill (pool : ConstantPool) (m : Member) : retypeTurn s c.name pool m = (m, pool, []) := by
      simp only [retypeTurn, hpolyfill]
    have hnone : c.methods.flatMap (fun _ => ([] : List Diagnostic)) = [] :=
      List.flatMap_eq_nil_iff.2 fun _ _ => rfl
    simp only [retypeAllLocals, hpolyfill, takeTurns_of_still hstill, hnone]
  | some polyfill =>
    -- One step of the fold is a turn, with what has been done before it.
    have hnext (done : List Member) (pool : ConstantPool) (ds : List Diagnostic) (m : Member) :
        retypeNext c.name (descriptorOf s.conventions.localVariableType)
            (descriptorOf polyfill.name) (done, pool, ds) m
          = ((retypeTurn s c.name pool m).1 :: done, (retypeTurn s c.name pool m).2.1,
            ds ++ (retypeTurn s c.name pool m).2.2) := by
      simp only [retypeNext, retypeTurn, hpolyfill]
      cases (retypeLocals (descriptorOf s.conventions.localVariableType)
          (descriptorOf polyfill.name) m).on pool with
      | error e => rfl
      | ok result =>
        obtain ⟨_ | m', pool'⟩ := result
        · simp only [List.append_nil]
        · simp only [List.append_nil]
    simp only [retypeAllLocals, hpolyfill]
    rw [foldl_turn hnext]
    simp only [List.append_nil, List.reverse_reverse, List.nil_append]

/-- What a body has to say about mixins is no malformed member. So a malformed member is only
reported by a turn that fails. -/
theorem finding_of_planAll {s : Surroundings} {pool : ConstantPool} {location : Location}
    {code : Code} {sites : List CallSite} {ds : List Diagnostic}
    (h : CallSite.planAll s pool location code = .ok (sites, ds)) {d : Diagnostic} (hd : d ∈ ds)
    (message : String) : d.finding ≠ .malformedMember message := by
  obtain ⟨body, _, hscanned⟩ := Redirection.scanned_of_planAll h
  rw [hscanned.diagnostics] at hd
  -- All that is reported of a body is a finding of `lacking?`.
  obtain ⟨e, _, he⟩ := List.mem_filterMap.1 hd
  obtain ⟨finding, hmissing, rfl⟩ := Option.map_eq_some_iff.1 he
  unfold Redirection.missing? at hmissing
  split at hmissing
  · obtain ⟨target, _, hlacking⟩ := Option.bind_eq_some_iff.1 hmissing
    unfold Redirection.lacking? at hlacking
    split at hlacking
    · simp only at hlacking
      split at hlacking
      · cases hlacking
        simp
      · cases hlacking
    · cases hlacking
  · cases hmissing

/-- A turn of redirecting that fails reports so, and changes neither the method nor the pool. What
it has interned before it failed is dropped with it. -/
theorem redirectTurn_leavesMalformed (s : Surroundings) (className : String) :
    (redirectTurn s className).LeavesMalformed className := by
  intro pool m d hd message hmessage
  unfold redirectTurn at hd ⊢
  cases hrun : (redirectMethod s className m).on pool with
  | error e =>
    -- Running on a pool gives nothing back where it fails.
    rw [hrun] at hd
    cases List.mem_singleton.1 hd
    exact ⟨rfl, rfl, rfl⟩
  | ok result =>
    obtain ⟨⟨m', found⟩, pool'⟩ := result
    rw [hrun] at hd
    -- A method that has been read reports what mixins lack, and nothing else.
    have hrun := Interning.get_bind_eq_ok.1 (Interning.on_eq_ok.1 hrun)
    obtain ⟨body, _, hrun⟩ := Interning.lift_bind_eq_ok.1 hrun
    cases body with
    | none =>
      obtain ⟨hresult, _⟩ := Interning.pure_eq_ok.1 hrun
      cases hresult
      cases hd
    | some code =>
      obtain ⟨⟨sites, ds⟩, hplan, hrun⟩ := Interning.lift_bind_eq_ok.1 hrun
      have hfound : found = ds := by
        simp only at hrun
        split at hrun
        · obtain ⟨hresult, _⟩ := Interning.pure_eq_ok.1 hrun
          cases hresult
          rfl
        · obtain ⟨code', _, _, hrun⟩ := Interning.bind_eq_ok.1 hrun
          obtain ⟨written, _, _, hend⟩ := Interning.bind_eq_ok.1 hrun
          obtain ⟨hresult, _⟩ := Interning.pure_eq_ok.1 hend
          cases hresult
          rfl
      exact absurd hmessage (finding_of_planAll hplan (hfound ▸ hd) message)

/-- So does a turn of retyping that fails. It has no other report to make. -/
theorem retypeTurn_leavesMalformed (s : Surroundings) (className : String) :
    (retypeTurn s className).LeavesMalformed className := by
  intro pool m d hd message _
  unfold retypeTurn at hd ⊢
  cases hpolyfill : s.polyfill? s.conventions.localVariableType with
  | none =>
    simp only [hpolyfill] at hd
    cases hd
  | some polyfill =>
    simp only [hpolyfill] at hd ⊢
    -- Only a failure is reported, and then method and pool are those from before.
    cases hrun : (retypeLocals (descriptorOf s.conventions.localVariableType)
        (descriptorOf polyfill.name) m).on pool with
    | error e =>
      rw [hrun] at hd
      cases List.mem_singleton.1 hd
      exact ⟨rfl, rfl, rfl⟩
    | ok result =>
      obtain ⟨found, pool'⟩ := result
      rw [hrun] at hd
      cases found <;> cases hd

/-! ## Passing over

That a method is passed over means more than that it stays: the methods behind it become what they
would have become without it. -/

section PassesOver

variable (step : Step) (s : Surroundings) (c : ClassFile)

/-- What a step reports on the method `m` of a class that has the methods `before` in front of
it: what it reports on all of them, but not on those in front. -/
def Step.reportsOn (before : List Member) (m : Member) : List Diagnostic :=
  (step s { c with methods := before ++ [m] }).2.drop (step s { c with methods := before }).2.length

/-- Whether a step passes over the method `m` of a class, between `before` and `after`. -/
structure Step.PassesOver (before : List Member) (m : Member) (after : List Member) : Prop where
  /-- The method stays, and the pool is the one from before it. -/
  unchanged : (step s { c with methods := before ++ [m] }).1
    = { (step s { c with methods := before }).1 with
        methods := (step s { c with methods := before }).1.methods ++ [m] }
  /-- The class becomes what it becomes without the method, with the method in its place. -/
  others : ∃ rest, (step s { c with methods := before ++ after }).1.methods
      = (step s { c with methods := before }).1.methods ++ rest
    ∧ (step s { c with methods := before ++ m :: after }).1
      = { (step s { c with methods := before ++ after }).1 with
          methods := (step s { c with methods := before }).1.methods ++ m :: rest }
  /-- What is reported besides is what is reported without the method. -/
  reports : ∃ more, (step s { c with methods := before ++ after }).2
      = (step s { c with methods := before }).2 ++ more
    ∧ (step s { c with methods := before ++ m :: after }).2
      = (step s { c with methods := before }).2 ++ step.reportsOn s c before m ++ more

/-- Whether a step that reports malformed members of a class reports them of its methods, and
passes over these. -/
structure Step.PassesOverMalformed : Prop where
  /-- Every report is one on a method. -/
  exists_reportsOn : ∀ d ∈ (step s c).2, ∃ before m after,
    c.methods = before ++ m :: after ∧ d ∈ step.reportsOn s c before m
  passesOver : ∀ before m after, c.methods = before ++ m :: after →
    ∀ d ∈ step.reportsOn s c before m, ∀ message, d.finding = .malformedMember message →
      d.location = .ofMethod c.name m.name m.descriptor ∧ step.PassesOver s c before m after

end PassesOver

section TakesTurns

variable {step : Step} {turn : Surroundings → String → Turn}

/-- What a step reports on a method is what its turn reports. -/
theorem Step.TakesTurns.reportsOn_eq (h : step.TakesTurns turn) (s : Surroundings) (c : ClassFile)
    (before : List Member) (m : Member) : step.reportsOn s c before m
      = (turn s c.name (takeTurns (turn s c.name) c.pool before).2.1 m).2.2 := by
  unfold Step.reportsOn
  rw [h, h]
  simp only [takeTurns_append, List.drop_left, takeTurns, List.append_nil]

/-- **A step in turns passes over the methods on which it fails**, if a turn that fails changes
nothing. -/
theorem Step.TakesTurns.passesOverMalformed (h : step.TakesTurns turn) (s : Surroundings)
    (c : ClassFile) (hturn : (turn s c.name).LeavesMalformed c.name) :
    step.PassesOverMalformed s c where
  exists_reportsOn d hd := by
    rw [h] at hd
    obtain ⟨before, m, after, hmethods, hd⟩ := exists_of_mem_takeTurns hd
    refine ⟨before, m, after, hmethods, ?_⟩
    rwa [h.reportsOn_eq]
  passesOver before m after _ d hd message hmessage := by
    have hreports := h.reportsOn_eq s c before m
    rw [hreports] at hd
    obtain ⟨hlocation, hsame, hpool⟩ := hturn _ m d hd message hmessage
    -- The turn has left the method and the pool, so that the methods behind it have the turns that
    -- they would have without it.
    refine ⟨hlocation, ?_, ?_, ?_⟩
    · simp only [h s, takeTurns_append, takeTurns, hsame, hpool]
    · simp only [h s, takeTurns_append, takeTurns, hsame, hpool]
      exact ⟨_, rfl, rfl⟩
    · simp only [hreports]
      simp only [h s, takeTurns_append, takeTurns, hpool, List.append_assoc]
      exact ⟨_, rfl, rfl⟩

end TakesTurns

/-- **What weaving keeps.** Every class keeps its place in the batch, what it is besides its
methods, and these, or all but the old factories of a carrier. Where retyping local variables or
redirecting calls fails on a method, the step passes over it. -/
theorem weave_keeps (conventions : Conventions) (classpath : ClassIndex) (batch : List ClassFile) :
    List.Forall₂ (Kept conventions) batch (weave conventions classpath batch).classes
      ∧ ∀ s c, Step.PassesOverMalformed retypeAllLocals s c
        ∧ Step.PassesOverMalformed redirectCalls s c := by
  refine ⟨kept_weave conventions classpath batch, fun s c => ⟨?_, ?_⟩⟩
  · exact retypeAllLocals_takesTurns.passesOverMalformed s c (retypeTurn_leavesMalformed s c.name)
  · exact redirectCalls_takesTurns.passesOverMalformed s c (redirectTurn_leavesMalformed s c.name)

/-- A class `A` whose first method cannot be decoded, and whose second one makes an `X` and calls
`f` on it. -/
def undecodableThenX : Bytes :=
  [202, 254, 186, 190, 0, 0, 0, 50, 0, 17, 1, 0, 1, 65, 7, 0, 1, 1, 0, 16, 106, 97, 118, 97,
   47, 108, 97, 110, 103, 47, 79, 98, 106, 101, 99, 116, 7, 0, 3, 1, 0, 1, 103, 1, 0, 3, 40,
   41, 86, 1, 0, 4, 67, 111, 100, 101, 1, 0, 1, 88, 7, 0, 8, 1, 0, 6, 60, 105, 110, 105, 116,
   62, 12, 0, 10, 0, 6, 10, 0, 9, 0, 11, 1, 0, 1, 102, 12, 0, 13, 0, 6, 10, 0, 9, 0, 14, 1, 0,
   1, 109, 0, 33, 0, 2, 0, 4, 0, 0, 0, 0, 0, 2, 0, 1, 0, 5, 0, 6, 0, 1, 0, 7, 0, 0, 0, 13, 0,
   0, 0, 1, 0, 0, 0, 1, 255, 0, 0, 0, 0, 0, 1, 0, 16, 0, 6, 0, 1, 0, 7, 0, 0, 0, 23, 0, 2, 0,
   1, 0, 0, 0, 11, 187, 0, 9, 89, 183, 0, 12, 182, 0, 15, 177, 0, 0, 0, 0, 0, 0]

/-- The first method is passed over, and the calls of the second one go to the polyfill. The report
names the first one only. -/
theorem weave_keeps_undecodable : ∃ c m after d message,
    ClassFile.parse undecodableThenX = .ok c ∧ c.methods = [] ++ m :: after
      ∧ d ∈ Step.reportsOn redirectCalls replacedX c [] m ∧ d.finding = .malformedMember message
      ∧ (redirectCalls replacedX c).1.methods ≠ c.methods
      ∧ Step.PassesOver redirectCalls replacedX c [] m after
      ∧ List.Forall₂ (Kept replacedX.conventions) [c]
        (weave replacedX.conventions replacedX.scope.classpath [c]).classes := by
  have hreported : (do
      let c ← (ClassFile.parse undecodableThenX).toOption
      let m ← c.methods.head?
      let d ← (Step.reportsOn redirectCalls replacedX c [] m).head?
      return decide (d.finding = .malformedMember "invalid opcode 0xff at pc 0"
        ∧ (redirectCalls replacedX c).1.methods ≠ c.methods)) = some true := by
    decide +kernel
  obtain ⟨c, hparse, hmethods⟩ := toOption_bind_eq_some.1 hreported
  obtain ⟨m, hm, hreports⟩ := Option.bind_eq_some_iff.1 hmethods
  obtain ⟨d, hd, hchecked⟩ := Option.bind_eq_some_iff.1 hreports
  obtain ⟨hfinding, hredirected⟩ := of_decide_eq_true (Option.some.inj hchecked)
  obtain ⟨after, hmethods⟩ := List.head?_eq_some_iff.1 hm
  have hd := List.mem_of_head? hd
  -- The first method is reported, and the second is redirected all the same.
  obtain ⟨hkept, hpassed⟩ := weave_keeps replacedX.conventions replacedX.scope.classpath [c]
  obtain ⟨_, hover⟩ := (hpassed replacedX c).2.passesOver [] m after hmethods d hd _ hfinding
  exact ⟨c, m, after, d, _, hparse, hmethods, hd, hfinding, hredirected, hover, hkept⟩

end ClassLoom.Weave
