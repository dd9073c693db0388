import ClassLoom.Proofs.Weave.Asking

/-!
# Workers that share a memo

The classes of a batch go through a phase side by side, each with a worker of its own. A worker
that asks for a polyfill takes the answer from a memo that all workers share. If the memo has none,
it looks one up, and stores it in a turn of its own. Between any two turns of a worker others may
have theirs: two workers may look up the same name, or one may find what another has stored.

* `Workers.OnTrack`: the memo holds nothing but what a look-up gives, and every worker is on the way
  to its result;
* `Workers.OnTrack.turn`, `Workers.OnTrack.run`: turns in any order keep to that;
* `weave_in_any_order`: neither the order of a batch nor that of the turns shows in the result.
-/

namespace ClassLoom

/-- The answers that have been stored, by the names that were asked for. -/
abbrev Memo := Std.TreeMap String (Option Polyfill)

/-- Whether a memo holds nothing but what a look-up gives. -/
def Memo.Sound (lookup : String → Option Polyfill) (memo : Memo) : Prop :=
  ∀ name found, memo[name]? = some found → found = lookup name

/-- How far a worker has come. -/
inductive Worker (α : Type) where
  /-- It goes on with its computation. -/
  | running (rest : Asking α)
  /-- It has looked an answer up, and is to store it before it goes on. -/
  | storing (name : String) (found : Option Polyfill) (rest : Asking α)

/-- The number of questions that a computation asks where a look-up answers them. -/
def Asking.questions {α : Type} (lookup : String → Option Polyfill) : Asking α → Nat
  | done _ => 0
  | ask name next => (next (lookup name)).questions lookup + 1

variable {α : Type} {lookup : String → Option Polyfill}

/-- A sound memo stays sound when an answer of the look-up is stored. -/
theorem Memo.Sound.insert {memo : Memo} (h : memo.Sound lookup) (name : String) :
    Memo.Sound lookup (memo.insert name (lookup name)) := by
  intro other found hfound
  rw [Std.TreeMap.getElem?_insert] at hfound
  split at hfound
  · next hname =>
    cases hfound
    rw [Std.compare_eq_iff_eq.1 hname]
  · exact h other found hfound

/-! ## One worker

A worker asks for an answer in one turn and stores it in another, with turns of other workers
between them. What it does next depends on the answer only. -/

namespace Worker

/-- The result, if there is one yet. -/
def result? : Worker α → Option α
  | running (.done result) => some result
  | _ => none

/-- A turn of a worker, and the memo after it. What a look-up gives does not change as long as a
phase lasts, so it does not matter when in the turn it takes place. -/
def turn (lookup : String → Option Polyfill) (memo : Memo) : Worker α → Worker α × Memo
  | running (.done result) => (running (.done result), memo)
  | running (.ask name next) =>
    match memo[name]? with
    | some found => (running (next found), memo)
    | none => (storing name (lookup name) (next (lookup name)), memo)
  | storing name found rest => (running rest, memo.insert name found)

/-- Whether a worker comes to the given result within so many turns. -/
def ComesTo (lookup : String → Option Polyfill) (result : α) (turns : Nat) : Worker α → Prop
  | running rest => rest.answered lookup = result ∧ 2 * rest.questions lookup ≤ turns
  | storing name found rest =>
    found = lookup name ∧ rest.answered lookup = result ∧ 2 * rest.questions lookup + 1 ≤ turns

/-- **One turn** of a worker keeps a sound memo sound, and there is one turn less to take. The turn
is a look-up in the memo, or the storing of what was looked up. -/
theorem ComesTo.turn {memo : Memo} {result : α} {turns : Nat} {worker : Worker α}
    (hmemo : memo.Sound lookup) (h : worker.ComesTo lookup result turns) :
    (worker.turn lookup memo).2.Sound lookup
      ∧ (worker.turn lookup memo).1.ComesTo lookup result (turns - 1) := by
  cases worker with
  | running rest =>
    obtain ⟨hresult, hturns⟩ := h
    cases rest with
    | done _ => exact ⟨hmemo, hresult, Nat.zero_le _⟩
    | ask name next =>
      rw [Asking.questions] at hturns
      cases hfound : memo[name]? with
      | none =>
        simp only [Worker.turn, hfound]
        exact ⟨hmemo, rfl, hresult, by omega⟩
      | some found =>
        -- The memo is sound, so the worker goes on as it would after a look-up.
        obtain rfl := hmemo name found hfound
        simp only [Worker.turn, hfound]
        exact ⟨hmemo, hresult, by omega⟩
  | storing name found rest =>
    obtain ⟨rfl, hresult, hturns⟩ := h
    exact ⟨hmemo.insert name, hresult, by omega⟩

/-- A worker has no other result than the one that it comes to. -/
theorem ComesTo.eq_of_result? {result found : α} {turns : Nat} {worker : Worker α}
    (h : worker.ComesTo lookup result turns) (hfound : worker.result? = some found) :
    found = result := by
  cases worker with
  | running rest =>
    cases rest with
    | done _ =>
      cases hfound
      exact h.1
    | ask name next => cases hfound
  | storing name found rest => cases hfound

/-- A worker without any turn to take has its result. -/
theorem ComesTo.result? {result : α} {worker : Worker α} (h : worker.ComesTo lookup result 0) :
    worker.result? = some result := by
  cases worker with
  | running rest =>
    cases rest with
    | done _ => exact congrArg some h.1
    | ask name next => exact absurd h.2 (Nat.not_succ_le_zero _)
  | storing name found rest => exact absurd h.2.2 (Nat.not_succ_le_zero _)

end Worker

/-! ## All workers

The memo is all that workers share. As it is sound after each turn, no worker can be misled by what
another one stores. -/

/-- Workers and the memo that they share. -/
structure Workers (α : Type) where
  memo : Memo := ∅
  workers : List (Worker α)

namespace Workers

/-- Workers that are about to start, with nothing in their memo. -/
def start (computations : List (Asking α)) : Workers α :=
  { workers := computations.map .running }

/-- The result of the worker at the place `i`, if there is one yet. -/
def result? (w : Workers α) (i : Nat) : Option α := w.workers[i]?.bind Worker.result?

/-- The turn of the worker at the place `i`. -/
def turn (lookup : String → Option Polyfill) (w : Workers α) (i : Nat) : Workers α :=
  match w.workers[i]? with
  | none => w
  | some worker =>
    let (worker, memo) := worker.turn lookup w.memo
    { memo, workers := w.workers.set i worker }

/-- Turns of the workers at the given places, one after another. -/
def run (lookup : String → Option Polyfill) (w : Workers α) (schedule : List Nat) : Workers α :=
  schedule.foldl (turn lookup) w

/-- Whether the memo is sound and each worker comes to the result at its place, within the turns at
its place. -/
structure OnTrack (lookup : String → Option Polyfill) (results : List α) (turns : Nat → Nat)
    (w : Workers α) : Prop where
  memo : w.memo.Sound lookup
  each : ∀ i : Nat, Option.Rel (fun result (worker : Worker α) =>
    worker.ComesTo lookup result (turns i)) results[i]? w.workers[i]?

section OnTrack

variable {results : List α} {turns : Nat → Nat} {w : Workers α}

/-- Workers that are about to start are on track: each has at most two turns for each of its
questions. -/
theorem onTrack_start (lookup : String → Option Polyfill) (computations : List (Asking α)) :
    (start computations).OnTrack lookup (computations.map (·.answered lookup))
      fun i => (computations[i]?.map (2 * ·.questions lookup)).getD 0 := by
  constructor
  · intro name found hfound
    rw [start, Std.TreeMap.getElem?_emptyc] at hfound
    cases hfound
  · intro i
    simp only [start, List.getElem?_map]
    cases computations[i]? with
    | none => exact .none
    | some computation => exact .some ⟨rfl, Nat.le_refl _⟩

/-- **A turn of any worker** leaves all of them on track. The memo changes for all of them, but only
by what is so anyway. -/
theorem OnTrack.turn (h : w.OnTrack lookup results turns) (i : Nat) :
    (w.turn lookup i).OnTrack lookup results fun j => turns j - if i = j then 1 else 0 := by
  have hi := h.each i
  unfold Workers.turn
  cases hworker : w.workers[i]? with
  | none =>
    -- There is no such worker, and no result at its place.
    refine ⟨h.memo, fun j => ?_⟩
    by_cases hij : i = j
    · subst hij
      rw [hworker] at hi ⊢
      generalize results[i]? = found at hi ⊢
      cases hi
      exact .none
    · simp only [if_neg hij, Nat.sub_zero]
      exact h.each j
  | some worker =>
    rw [hworker] at hi
    generalize hresult : results[i]? = found at hi
    cases hi with
    | some hcomes =>
      obtain ⟨hmemo, hcomes⟩ := hcomes.turn h.memo
      refine ⟨hmemo, fun j => ?_⟩
      by_cases hij : i = j
      · subst hij
        obtain ⟨hlt, _⟩ := List.getElem?_eq_some_iff.1 hworker
        simp only [hresult, List.getElem?_set_self hlt]
        exact .some hcomes
      · simp only [if_neg hij, Nat.sub_zero, List.getElem?_set_ne hij]
        exact h.each j

/-- **Turns in any order** leave all workers on track. By induction on the turns. -/
theorem OnTrack.run (h : w.OnTrack lookup results turns) (schedule : List Nat) :
    (w.run lookup schedule).OnTrack lookup results fun j => turns j - schedule.count j := by
  induction schedule generalizing w turns with
  | nil => exact h
  | cons i schedule ih =>
    have hcount : (fun j => turns j - (i :: schedule).count j)
        = fun j => (turns j - if i = j then 1 else 0) - schedule.count j := by
      funext j
      rw [List.count_cons, Nat.sub_sub, Nat.add_comm]
      simp only [beq_iff_eq]
    rw [hcount]
    exact ih (h.turn i)

/-- A worker that is on track has no other result than the one at its place, and has it once it
has taken its turns. -/
theorem OnTrack.result? (h : w.OnTrack lookup results turns) {i : Nat} {result : α}
    (hresult : results[i]? = some result) :
    (∀ found, w.result? i = some found → found = result)
      ∧ (turns i = 0 → w.result? i = some result) := by
  have hi := h.each i
  rw [hresult] at hi
  unfold Workers.result?
  generalize w.workers[i]? = worker at hi ⊢
  cases hi with
  | some hcomes =>
    refine ⟨fun found hfound => hcomes.eq_of_result? hfound, fun hturns => ?_⟩
    rw [hturns] at hcomes
    exact hcomes.result?

end OnTrack
end Workers

/-! ## Phases

In a phase, all workers look up in the same scope. The next phase begins when all have come to their
results. -/

namespace Weave

/-- The workers of a phase, about to start. -/
def Phase.workers (p : Phase) (s : Surroundings) (classes : List ClassFile) :
    Workers (ClassFile × List Diagnostic) :=
  .start (classes.map (p.asking s))

/-- The turns that are enough for a class in a phase, whatever is in the memo. -/
def Phase.turns (p : Phase) (s : Surroundings) (c : ClassFile) : Nat :=
  2 * (p.asking s c).questions s.polyfill?

/-- **The workers of a phase in any order.** The memo never holds anything but what a look-up gives,
no worker has any other result than its step with all answers looked up, and it has this result when
it has had its turns. -/
theorem Phase.run_workers (p : Phase) (s : Surroundings) (classes : List ClassFile)
    (schedule : List Nat) :
    ((p.workers s classes).run s.polyfill? schedule).memo.Sound s.polyfill?
      ∧ ∀ i c, classes[i]? = some c →
        (∀ found, ((p.workers s classes).run s.polyfill? schedule).result? i = some found →
          found = p.step s c)
        ∧ (p.turns s c ≤ schedule.count i →
          ((p.workers s classes).run s.polyfill? schedule).result? i = some (p.step s c)) := by
  have htrack := (Workers.onTrack_start s.polyfill? (classes.map (p.asking s))).run schedule
  refine ⟨htrack.memo, fun i c hc => ?_⟩
  have hresult : ((classes.map (p.asking s)).map (·.answered s.polyfill?))[i]?
      = some (p.step s c) := by
    simp only [List.getElem?_map, hc, Option.map_some, p.answered_asking]
  obtain ⟨honly, hdone⟩ := htrack.result? hresult
  refine ⟨honly, fun hturns => hdone ?_⟩
  simp only [List.getElem?_map, hc, Option.map_some, Option.getD_some]
  exact Nat.sub_eq_zero_of_le hturns

/-- **Neither the order of a batch nor that of the turns shows.** A batch whose classes have
different names is woven, in another order, to the same classes with the same reports, all in that
order. And whatever turns the workers of a phase have, the memo that they share holds nothing but
what a look-up gives, and no class comes to anything but what its step makes of it, to which it
comes within a fixed number of its turns. -/
theorem weave_in_any_order {batch : List ClassFile} (hnames : (batch.map (·.name)).Nodup)
    (conventions : Conventions) (classpath : ClassIndex) :
    (∀ permuted : List ClassFile, permuted.Perm batch →
        weave conventions classpath permuted
          = { classes := permuted.map fun c => (weaveClass conventions classpath batch c).result
              diagnostics := [Phase.prepare, .redirect, .narrow].flatMap fun p =>
                permuted.flatMap fun c => (weaveClass conventions classpath batch c).reports p })
      ∧ ∀ (p : Phase) (classes : List ClassFile) (schedule : List Nat),
        let s := surroundings conventions classpath classes
        let workers := (p.workers s classes).run s.polyfill? schedule
        (∀ name found, workers.memo[name]? = some found → found = s.polyfill? name)
          ∧ ∀ i c, classes[i]? = some c →
            (∀ found, workers.result? i = some found → found = p.step s c)
              ∧ (p.turns s c ≤ schedule.count i → workers.result? i = some (p.step s c)) :=
  ⟨fun _ h => weave_perm h hnames, fun p _ schedule => p.run_workers _ _ schedule⟩

/-- A caller and the class whose method it calls, in either order, and with the turns of their
workers interleaved. -/
theorem weave_in_any_order_caller : ∃ conventions caller declaring polyfill,
    polyfillsInR.conventions = .ok conventions ∧ ClassFile.parse callOfInherited = .ok caller
      ∧ ClassFile.parse inheritedFrom = .ok declaring
      ∧ ClassFile.parse inheritingPolyfill = .ok polyfill
      ∧ let classpath := ClassIndex.ofClasses [polyfill]
        let s := surroundings conventions classpath [caller, declaring]
        let workers := (Phase.redirect.workers s [caller, declaring]).run s.polyfill? [0, 1, 0]
        ([caller, declaring].map (·.name)).Nodup ∧ [declaring, caller].Perm [caller, declaring]
          ∧ (weave conventions classpath [declaring, caller]).classes
            = (weave conventions classpath [caller, declaring]).classes.reverse
          ∧ (redirectCalls s caller).1.methods ≠ caller.methods
          ∧ workers.memo["X"]? = some (s.polyfill? "X")
          ∧ workers.result? 0 = some (redirectCalls s caller) := by
  have hevaluated : (do
      let conventions ← polyfillsInR.conventions.toOption
      let caller ← (ClassFile.parse callOfInherited).toOption
      let declaring ← (ClassFile.parse inheritedFrom).toOption
      let polyfill ← (ClassFile.parse inheritingPolyfill).toOption
      let classpath := ClassIndex.ofClasses [polyfill]
      let s := surroundings conventions classpath [caller, declaring]
      let workers := (Phase.redirect.workers s [caller, declaring]).run s.polyfill? [0, 1, 0]
      return decide (caller.name ≠ declaring.name
        ∧ (redirectCalls s caller).1.methods ≠ caller.methods
        ∧ workers.memo["X"]?.isSome
        ∧ Phase.redirect.turns s caller ≤ 2)) = some true := by
    decide +kernel
  simp only [toOption_bind_eq_some] at hevaluated
  obtain ⟨conventions, hconventions, caller, hcaller, declaring, hdeclaring, polyfill, hpolyfill,
    hchecked⟩ := hevaluated
  obtain ⟨hne, hredirected, hstored, hturns⟩ := of_decide_eq_true (Option.some.inj hchecked)
  have hnames : ([caller, declaring].map (·.name)).Nodup :=
    List.nodup_cons.2 ⟨by simpa using hne, List.nodup_singleton _⟩
  have hswap : [declaring, caller].Perm [caller, declaring] := .swap ..
  obtain ⟨hperm, hphases⟩ := weave_in_any_order hnames conventions (.ofClasses [polyfill])
  -- Worker 0 has two turns, between which worker 1 has one.
  obtain ⟨hmemo, hresults⟩ := hphases .redirect [caller, declaring] [0, 1, 0]
  obtain ⟨found, hfound⟩ := Option.isSome_iff_exists.1 hstored
  refine ⟨conventions, caller, declaring, polyfill, hconventions, hcaller, hdeclaring, hpolyfill,
    hnames, hswap, ?_, hredirected, ?_, (hresults 0 caller rfl).2 hturns⟩
  · rw [hperm _ hswap, hperm _ (.refl _)]
    rfl
  · rw [hfound, hmemo "X" found hfound]

end Weave
end ClassLoom
