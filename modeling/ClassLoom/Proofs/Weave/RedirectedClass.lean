import ClassLoom.Proofs.ClassFile.Indexed
import ClassLoom.Proofs.Weave.RedirectedBody
import ClassLoom.ClassFile.Format

/-!
# Classes with redirected calls

Redirecting the calls of a class takes its methods one after the other. Each has an outcome of
its own (`Outcome`), told by the pool that the methods before it have left; what is reported is
reported in their order.

* `redirectCalls_outcomes`: the outcomes of all methods of a class.
-/

namespace ClassLoom.Weave

open ConstantPool
open Redirection

/-- What one more method adds to those that are done. It goes on from the pool that they have
left. -/
theorem redirectNext_eq (s : Surroundings) (className : String) (done : List Member)
    {pool : ConstantPool} (diagnostics : List Diagnostic) (m : Member) (hpool : Reachable pool) :
    ∃ result mid, redirectNext s className (done, pool, diagnostics) m
        = (result.1 :: done, mid, diagnostics ++ result.2)
      ∧ GrowsTo pool mid
      ∧ ∀ last, Grown mid last → Outcome s className pool last m result := by
  cases hrun : (redirectMethod s className m).on pool with
  | ok found =>
    obtain ⟨result, mid⟩ := found
    have hok := Interning.on_eq_ok.1 hrun
    refine ⟨result, mid, ?_, (appends_redirectMethod s className m).growsTo hok,
      fun last hgrown => outcome_of_redirectMethod hpool hok hgrown⟩
    simp only [redirectNext, hrun]
  | error e =>
    refine ⟨_, pool, ?_, GrowsTo.refl pool, fun last _ => .failed e hrun⟩
    simp only [redirectNext, hrun]

/-- The outcomes of methods one after the other. The pool of each is that behind the one before
it. -/
theorem foldl_redirectNext (s : Surroundings) (className : String) (ms done : List Member)
    {pool : ConstantPool} (diagnostics : List Diagnostic) (hpool : Reachable pool) :
    ∃ (results : List (Member × List Diagnostic)) (last : ConstantPool),
      ms.foldl (redirectNext s className) (done, pool, diagnostics)
          = ((results.map (·.1)).reverse ++ done, last, diagnostics ++ results.flatMap (·.2))
        ∧ GrowsTo pool last
        ∧ List.Forall₂ (fun m result => ∃ before, GrowsTo pool before ∧ GrowsTo before last
            ∧ Outcome s className before last m result) ms results := by
  induction ms generalizing done pool diagnostics with
  | nil => exact ⟨[], pool, by simp, GrowsTo.refl pool, .nil⟩
  | cons m ms ih =>
    obtain ⟨result, mid, hnext, hmid, houtcome⟩ :=
      redirectNext_eq s className done diagnostics m hpool
    obtain ⟨results, last, hfold, hlast, hresults⟩ :=
      ih (result.1 :: done) (diagnostics ++ result.2) (hmid.reachable hpool)
    refine ⟨result :: results, last, ?_, hmid.trans hlast, .cons ?_ (hresults.imp ?_)⟩
    · rw [List.foldl_cons, hnext, hfold]
      simp
    · exact ⟨pool, GrowsTo.refl pool, hmid.trans hlast, houtcome last hlast.grown⟩
    · rintro m' result' ⟨before, hbefore, hafter, houtcome'⟩
      exact ⟨before, hmid.trans hbefore, hafter, houtcome'⟩

/-- Redirecting the calls of a class, method by method. Methods keep their order, and a method that
fails is given back. -/
theorem redirectCalls_eq (s : Surroundings) (c : ClassFile) (hpool : Reachable c.pool) :
    ∃ (results : List (Member × List Diagnostic)) (last : ConstantPool),
      redirectCalls s c
          = ({ c with methods := results.map (·.1), pool := last }, results.flatMap (·.2))
        ∧ List.Forall₂ (fun m result => ∃ before, GrowsTo c.pool before ∧ GrowsTo before last
            ∧ Outcome s c.name before last m result) c.methods results := by
  obtain ⟨results, last, hfold, _, hresults⟩ :=
    foldl_redirectNext s c.name c.methods [] [] hpool
  refine ⟨results, last, ?_, hresults⟩
  unfold redirectCalls
  rw [hfold]
  simp

/-- **What redirecting the calls of a class does to its methods.** All of them stay, in their
order, each with its own outcome; nothing else of the class changes but its pool, which grows. -/
theorem redirectCalls_outcomes (s : Surroundings) (c : ClassFile) (hpool : Reachable c.pool) :
    ∃ (results : List (Member × List Diagnostic)) (last : ConstantPool),
      (redirectCalls s c).1 = { c with methods := results.map (·.1), pool := last }
        ∧ (redirectCalls s c).2 = results.flatMap (·.2)
        ∧ List.Forall₂ (fun m result => ∃ before, GrowsTo c.pool before ∧ GrowsTo before last
            ∧ Outcome s c.name before last m result) c.methods results := by
  obtain ⟨results, last, heq, houtcomes⟩ := redirectCalls_eq s c hpool
  exact ⟨results, last, congrArg Prod.fst heq, congrArg Prod.snd heq, houtcomes⟩

/-- A class `A` whose method makes an `X` and calls `f` on it. -/
def makesX : Bytes :=
  [202, 254, 186, 190, 0, 0, 0, 50, 0, 16, 1, 0, 1, 65, 7, 0, 1, 1, 0, 16, 106, 97, 118, 97, 47,
   108, 97, 110, 103, 47, 79, 98, 106, 101, 99, 116, 7, 0, 3, 1, 0, 1, 109, 1, 0, 3, 40, 41, 86,
   1, 0, 1, 88, 7, 0, 7, 1, 0, 6, 60, 105, 110, 105, 116, 62, 12, 0, 9, 0, 6, 10, 0, 8, 0, 10, 1,
   0, 1, 102, 12, 0, 12, 0, 6, 10, 0, 8, 0, 13, 1, 0, 4, 67, 111, 100, 101, 0, 33, 0, 2, 0, 4, 0,
   0, 0, 0, 0, 1, 0, 1, 0, 5, 0, 6, 0, 1, 0, 15, 0, 0, 0, 23, 0, 2, 0, 1, 0, 0, 0, 11, 187, 0, 8,
   89, 183, 0, 11, 182, 0, 14, 177, 0, 0, 0, 0, 0, 0]

/-- What the class refers to: a polyfill that stands in for `X`. -/
def replacedX : Surroundings :=
  let stub : ClassStub :=
    { name := "r/_X", access := 0, superName := none, interfaces := [], annotations := []
      fields := [], methods := [] }
  { scope := { batch := .empty, classpath := ClassIndex.empty.insert stub }
    conventions :=
      { polyfillNamespace := "r", mixinMarker := "M", companionSuffix := "$"
        lambdaClass := .oneOf .empty, lambdaFactory := "make", replacementFactory := "_make"
        replacementPrefix := "_", lambdaInstanceField := "instance", localVariableType := "O" } }

/-- The `new`, the constructor call behind it and the call of `f` go to the polyfill. -/
theorem redirectCalls_outcomes_new : ∃ c, ClassFile.parse makesX = .ok c
    ∧ (redirectCalls replacedX c).1.methods ≠ c.methods
    ∧ ∃ (results : List (Member × List Diagnostic)) (last : ConstantPool),
      (redirectCalls replacedX c).1 = { c with methods := results.map (·.1), pool := last }
        ∧ (redirectCalls replacedX c).2 = results.flatMap (·.2)
        ∧ List.Forall₂ (fun m result => ∃ before, GrowsTo c.pool before ∧ GrowsTo before last
            ∧ Outcome replacedX c.name before last m result) c.methods results := by
  have hredirected : (match ClassFile.parse makesX with
    | .ok c => decide ((redirectCalls replacedX c).1.methods ≠ c.methods)
    | .error _ => false) = true := by
    decide +kernel
  split at hredirected
  · next c hparse =>
    exact ⟨c, hparse, of_decide_eq_true hredirected,
      redirectCalls_outcomes replacedX c (reachable_of_parse hparse)⟩
  · cases hredirected

end ClassLoom.Weave
