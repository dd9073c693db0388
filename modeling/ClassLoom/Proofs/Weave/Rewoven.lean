import ClassLoom.Proofs.Weave.ConstructedObjects
import ClassLoom.Proofs.Weave.PreparedAgain

/-!
# Woven batches that stay as they are

The batch that weaving has made of a steady one is settled: calls go where no rule sends them on,
variables that were retyped have lost the old type, carriers have their factories, and nothing is
left to be forwarded or to be narrowed.

* `Steady.settled`: every class of the woven batch;
* `weave_weave_classes`: weaving a batch twice.
-/

namespace ClassLoom.Weave

open ConstantPool
open Redirection

/-- The instructions of a method stay when the pool grows. What could be read still can. -/
theorem instructions?_grown {pool pool' : ConstantPool} (hgrown : Grown pool pool') {m : Member}
    {body : List (Nat × Instruction)} (h : body ∈ instructions? pool m) :
    body ∈ instructions? pool' m := by
  unfold instructions? at h ⊢
  cases hcode : m.code? pool with
  | error e =>
    rw [hcode] at h
    cases h
  | ok found =>
    rw [hcode] at h
    rw [Member.code?_grown hgrown hcode]
    exact h

/-- The instructions of a method with a body are what that decodes to. -/
theorem decode_of_instructions? {pool : ConstantPool} {m : Member} {code : Code}
    {body : List (Nat × Instruction)} (h : body ∈ instructions? pool m)
    (hcode : m.code? pool = .ok (some code)) : Instruction.decode code.bytecode = .ok body := by
  unfold instructions? at h
  rw [hcode] at h
  cases hdecode : Instruction.decode code.bytecode with
  | error e =>
    simp only [hdecode] at h
    cases h
  | ok found =>
    simp only [hdecode] at h
    cases h
    rfl

section Calls

variable {s s' : Surroundings} {className : String} {pool last : ConstantPool} {m : Member}
  {result : Member × List Diagnostic} {code : Code} {moved : List (Nat × Instruction)}

/-- **No call has a rule again**, where the method has been redirected without a report. Each of its
instructions is one that was kept, or one that was emitted. -/
theorem not_rewrite_of_outcome (hagrees : Agrees s s')
    (h : Outcome s className pool last m result) (hgrown : Grown pool last)
    (hregular : ∀ code body, m.code? pool = .ok (some code) →
      Instruction.decode code.bytecode = .ok body → Regular s.conventions pool body)
    (hreported : Unreported result.2) (hcode : result.1.code? last = .ok (some code))
    (hdecode : Instruction.decode code.bytecode = .ok moved) :
    ∀ e ∈ moved, ∀ r, ¬ Rewrite s' last moved e r := by
  cases h with
  | bodiless hnone =>
    rw [Member.code?_grown hgrown hnone] at hcode
    cases hcode
  -- The body is the old one, in which no rule applied then, and none does now.
  | untouched code' body hcode' hdecode' _ hnone =>
    rw [Member.code?_grown hgrown hcode'] at hcode
    cases hcode
    rw [hdecode'] at hdecode
    cases hdecode
    have hpcs := (Instruction.consecutive_of_decode hdecode').pairwise
      (Instruction.wellFormed_of_decode hdecode')
    have hbecomes : ∀ e ∈ moved, Becomes s pool last moved e [e.2] := fun e he =>
      ⟨fun r hrewrite => absurd hrewrite (hnone e he r), fun _ => rfl⟩
    have hmoved : List.Forall₂ (Instruction.Relocated id) (moved.flatMap fun e => [e.2])
        (moved.map (·.2)) := by
      rw [← List.map_eq_flatMap]
      exact List.forall₂_same.2 fun i _ => relocated_id i
    exact not_rewrite_of_becomes hpcs hagrees (hregular code moved hcode' hdecode') hgrown hbecomes
      hmoved
  | redirected code₀ code' body moved' became newOffset info hcode₀ hdecode₀ _ _ hcode' hmoved
      hbody =>
    rw [hcode'] at hcode
    cases hcode
    rw [hmoved] at hdecode
    cases hdecode
    have hpcs := (Instruction.consecutive_of_decode hdecode₀).pairwise
      (Instruction.wellFormed_of_decode hdecode₀)
    exact not_rewrite_of_becomes hpcs hagrees (hregular code₀ body hcode₀ hdecode₀) hgrown
      hbody.becomes hbody.instructions
  | failed e _ => exact absurd rfl (hreported _ (List.mem_singleton_self _) e.message)

/-- A method in which no instruction has a rule is left as it is. Without sites the body is not
patched, and nothing is interned. -/
theorem redirectMethod_eq_self (hnone : ∀ code body, m.code? pool = .ok (some code) →
      Instruction.decode code.bytecode = .ok body → ∀ e ∈ body, ∀ r, ¬ Rewrite s pool body e r)
    {m' : Member} {diagnostics : List Diagnostic}
    (h : redirectMethod s className m pool = .ok (m', diagnostics) last) :
    m' = m ∧ last = pool := by
  cases redirectMethod_eq_ok h with
  | bodiless => exact ⟨rfl, rfl⟩
  | untouched => exact ⟨rfl, rfl⟩
  | redirected code redirected sites _ _ _ _ hcode hplan hsites _ _ =>
    obtain ⟨body, hdecode, hscanned⟩ := scanned_of_planAll hplan
    obtain ⟨site, hsite⟩ := List.exists_mem_of_ne_nil sites hsites
    obtain ⟨e, he, _, hrewrite⟩ := hscanned.rewrite_of_mem hsite
    exact absurd hrewrite (hnone code body hcode hdecode e he _)

end Calls

namespace Steady

variable {settings : Settings} {conventions : Conventions} {libraries batch : List ClassFile}
  {s s₁ s₂ s₃ : Surroundings} {old prepared new : ClassFile}

theorem unreported_prepare (h : Steady conventions libraries batch) (hold : old ∈ batch) :
    Unreported (prepare (surroundings conventions (.ofClasses libraries) batch) old).2 :=
  fun d hd => h.reported d (mem_weave_diagnostics_of_prepare hold hd)

/-- What is reported when the calls of one class are redirected. -/
theorem unreported_redirectCalls (h : Steady conventions libraries batch)
    (hprepared : prepared ∈ preparedClasses conventions libraries batch) :
    Unreported (redirectCalls (surroundings conventions (.ofClasses libraries)
      (preparedClasses conventions libraries batch)) prepared).2 :=
  fun d hd => h.reported d (mem_weave_diagnostics hprepared hd)

/-- **No call of a redirected class is sent on.** It is looked at with what can be seen in the
end. -/
theorem redirectMethod_again (hsettings : settings.conventions = .ok conventions)
    (h : Steady conventions libraries batch)
    (hs₁ : s₁ = surroundings conventions (.ofClasses libraries)
      (preparedClasses conventions libraries batch))
    (hs₃ : s₃ = surroundings conventions (.ofClasses libraries)
      (weave conventions (.ofClasses libraries) batch).classes)
    (hprepared : prepared ∈ preparedClasses conventions libraries batch)
    (hpool : Reachable prepared.pool) {m m' : Member}
    (hm : m ∈ (redirectCalls s₁ prepared).1.methods) {className : String}
    {diagnostics : List Diagnostic} {pool : ConstantPool}
    (hrun : redirectMethod s₃ className m (redirectCalls s₁ prepared).1.pool
      = .ok (m', diagnostics) pool) : m' = m ∧ pool = (redirectCalls s₁ prepared).1.pool := by
  obtain ⟨results, last, hredirected, houtcomes⟩ := redirectCalls_eq s₁ prepared hpool
  have hreported := h.unreported_redirectCalls hprepared
  rw [← hs₁, hredirected] at hreported
  rw [hredirected] at hm hrun ⊢
  -- The method is what one of the prepared ones has come to.
  obtain ⟨result, hresult, rfl⟩ := List.mem_map.1 hm
  obtain ⟨m₀, hm₀, before, hbefore, hlast, houtcome⟩ := exists_of_mem_right houtcomes hresult
  refine redirectMethod_eq_self (fun code moved hcode hdecode => ?_) hrun
  refine not_rewrite_of_outcome (h.agrees hs₁ hs₃ hsettings) houtcome hlast.grown
    (fun code₀ body hcode₀ hdecode₀ => ?_)
    (fun d hd => hreported d (List.mem_flatMap.2 ⟨result, hresult, hd⟩)) hcode hdecode
  -- The body from before is regular, in the pool of its class and in all later ones.
  obtain ⟨found, hfound, hregular⟩ := h.regular prepared hprepared m₀ hm₀
  have hbody := decode_of_instructions? (instructions?_grown hbefore.grown hfound) hcode₀
  rw [hdecode₀] at hbody
  cases hbody
  subst hs₁
  exact hregular.grown hbefore.grown

/-- **No variable of a redirected class is retyped again.** Retyping was the first thing that was
done to it. -/
theorem retypeLocals_again (h : Steady conventions libraries batch)
    (hs : s = surroundings conventions (.ofClasses libraries) batch)
    (hs₁ : s₁ = surroundings conventions (.ofClasses libraries)
      (preparedClasses conventions libraries batch))
    (hold : old ∈ batch) (hpool : Reachable old.pool) {polyfill : Polyfill}
    (hpolyfill : s.polyfill? s.conventions.localVariableType = some polyfill) {m : Member}
    (hm : m ∈ (redirectCalls s₁ (prepare s old).1).1.methods) (m' : Member) (pool : ConstantPool) :
    retypeLocals (descriptorOf s.conventions.localVariableType) (descriptorOf polyfill.name) m
      (redirectCalls s₁ (prepare s old).1).1.pool ≠ .ok (some m') pool := by
  have hprepared : (prepare s old).1 ∈ preparedClasses conventions libraries batch :=
    hs ▸ List.mem_map_of_mem hold
  have hreported := h.unreported_prepare hold
  have hreported₁ := h.unreported_redirectCalls hprepared
  rw [← hs] at hreported
  rw [← hs₁] at hreported₁
  have hpool₁ := (prepare_extends s old).pool.reachable hpool
  have hlost := lostLocals_redirectCalls hpool₁ (lostLocals_prepare hpolyfill hpool hreported)
    hreported₁ m hm
  exact hlost.retypeLocals_ne_some (descriptorOf_ne hpolyfill)
    ((redirectCalls_extends s₁ _).pool.reachable hpool₁)

/-- **What becomes of a class of a steady batch** is settled. Step by step: it gets no factory, no
retyped variable and no forwarder, its calls stay, and it is not narrowed. -/
theorem settled_of_mem (hsettings : settings.conventions = .ok conventions)
    (h : Steady conventions libraries batch)
    (hs : s = surroundings conventions (.ofClasses libraries) batch)
    (hs₁ : s₁ = surroundings conventions (.ofClasses libraries)
      (preparedClasses conventions libraries batch))
    (hs₂ : s₂ = surroundings conventions (.ofClasses libraries)
      (redirectedClasses conventions (.ofClasses libraries) batch))
    (hs₃ : s₃ = surroundings conventions (.ofClasses libraries)
      (weave conventions (.ofClasses libraries) batch).classes)
    (hold : old ∈ batch) (hpool : Reachable old.pool)
    (hnew : new = narrowCarrier s₂ (redirectCalls s₁ (prepare s old).1).1)
    (hmem : new ∈ (weave conventions (.ofClasses libraries) batch).classes) : Settled s₃ new := by
  have h₂ : SamePolyfills s s₂ := by
    subst hs hs₂
    exact ⟨rfl, funext (h.keeps_redirected libraries).2⟩
  have h₃ : SamePolyfills s s₃ := by
    subst hs hs₃
    exact ⟨rfl, funext (h.keeps_woven libraries).2⟩
  have hprepared : (prepare s old).1 ∈ preparedClasses conventions libraries batch :=
    hs ▸ List.mem_map_of_mem hold
  have hpool₁ := (prepare_extends s old).pool.reachable hpool
  have hnewPool : new.pool = (redirectCalls s₁ (prepare s old).1).1.pool := by
    rw [hnew, narrowCarrier_pool]
  have hmethods {m : Member} (hm : m ∈ new.methods) :
      m ∈ (redirectCalls s₁ (prepare s old).1).1.methods :=
    mem_methods_of_narrowCarrier (hnew ▸ hm)
  -- One part for each step of weaving. None of them would change the class a second time.
  refine ⟨fun polyfill => ?_, fun polyfill hpolyfill m hm m' pool => ?_, fun hclass f hf => ?_,
    fun m hm m' diagnostics pool hrun => ?_, ?_⟩
  · have hfactory : s.conventions.replacementFactory ≠ s.conventions.lambdaFactory :=
      hs ▸ Settings.replacementFactory_ne hsettings
    have hreported := h.unreported_prepare hold
    rw [← hs] at hreported
    exact of?_ne_some_again hfactory h₂ h₃ (fun f hf => h.name_of_mem_needed (hs ▸ hf)) hreported
      hnew
  · rw [h₃.conventions, h₃.polyfill?] at hpolyfill
    rw [h₃.conventions, hnewPool]
    exact h.retypeLocals_again hs hs₁ hold hpool hpolyfill (hmethods hm) m' pool
  · rw [hs₃, h.needed_woven hmem hclass] at hf
    cases hf
  · rw [hnewPool] at hrun ⊢
    exact h.redirectMethod_again hsettings hs₁ hs₃ hprepared hpool₁ (hmethods hm) hrun
  · rw [← narrowCarrier_eq_self_iff, hnew]
    exact narrowCarrier_narrowCarrier
      ⟨h₃.conventions.trans h₂.conventions.symm, h₃.polyfill?.trans h₂.polyfill?.symm⟩ _

/-- **A batch that has been woven from a steady one** is settled. -/
theorem settled (hsettings : settings.conventions = .ok conventions)
    (h : Steady conventions libraries batch) (hpools : ∀ c ∈ batch, Reachable c.pool) :
    ∀ new ∈ (weave conventions (.ofClasses libraries) batch).classes,
      Settled (surroundings conventions (.ofClasses libraries)
        (weave conventions (.ofClasses libraries) batch).classes) new := by
  intro new hmem
  have hnew := hmem
  rw [weave_classes_eq_map] at hnew
  obtain ⟨old, hold, hnew⟩ := List.mem_map.1 hnew
  exact h.settled_of_mem hsettings rfl rfl rfl rfl hold (hpools old hold) hnew.symm hmem

end Steady

/-- **Weaving twice.** Weaving a woven batch of parsed classes again changes nothing exactly where
its classes are settled, and they are so where the batch was steady. -/
theorem weave_weave_classes {settings : Settings} {conventions : Conventions}
    (hsettings : settings.conventions = .ok conventions) (classpath : ClassIndex)
    (batch : List ClassFile) (hbatch : ∀ c ∈ batch, ∃ bs, ClassFile.parse bs = .ok c) :
    let once := (weave conventions classpath batch).classes
    ((weave conventions classpath once).classes = once
        ↔ ∀ c ∈ once, Settled (surroundings conventions classpath once) c)
      ∧ ∀ libraries, classpath = .ofClasses libraries → Steady conventions libraries batch →
        (weave conventions classpath once).classes = once := by
  intro once
  have hiff := weave_weave_classes_eq_iff conventions classpath batch hbatch
  refine ⟨hiff, ?_⟩
  rintro libraries rfl hsteady
  refine hiff.2 (hsteady.settled hsettings fun c hc => ?_)
  obtain ⟨bs, hparse⟩ := hbatch c hc
  exact reachable_of_parse hparse

/-- A class `A` whose method makes an `X`, calls `f` on it, and calls the factory of a lambda
carrier. -/
def callsXAndCarrier : Bytes :=
  [202, 254, 186, 190, 0, 0, 0, 50, 0, 22, 1, 0, 1, 65, 7, 0, 1, 1, 0, 16, 106, 97, 118, 97, 47,
   108, 97, 110, 103, 47, 79, 98, 106, 101, 99, 116, 7, 0, 3, 1, 0, 1, 109, 1, 0, 3, 40, 41, 86,
   1, 0, 1, 88, 7, 0, 7, 1, 0, 6, 60, 105, 110, 105, 116, 62, 12, 0, 9, 0, 6, 10, 0, 8, 0, 10,
   1, 0, 1, 102, 12, 0, 12, 0, 6, 10, 0, 8, 0, 13, 1, 0, 11, 65, 36, 36, 76, 97, 109, 98, 100,
   97, 36, 49, 7, 0, 15, 1, 0, 14, 108, 97, 109, 98, 100, 97, 70, 97, 99, 116, 111, 114, 121,
   36, 1, 0, 6, 40, 73, 41, 76, 73, 59, 12, 0, 17, 0, 18, 10, 0, 16, 0, 19, 1, 0, 4, 67, 111,
   100, 101, 0, 33, 0, 2, 0, 4, 0, 0, 0, 0, 0, 1, 0, 1, 0, 5, 0, 6, 0, 1, 0, 21, 0, 0, 0, 28, 0,
   2, 0, 1, 0, 0, 0, 16, 187, 0, 8, 89, 183, 0, 11, 182, 0, 14, 4, 184, 0, 20, 87, 177, 0, 0, 0,
   0, 0, 0]

/-- The calls go to the polyfill of `X` and to the new factory, and the carrier gets that, the
polyfill of its interface and a forwarder. Weaving both again changes nothing. -/
theorem weave_weave_steady : ∃ conventions caller carrier polyfill replacement,
    polyfillsInR.conventions = .ok conventions
      ∧ ClassFile.parse callsXAndCarrier = .ok caller ∧ ClassFile.parse carrierOfI = .ok carrier
      ∧ ClassFile.parse carriedPolyfill = .ok polyfill
      ∧ ClassFile.parse polyfillOfX = .ok replacement
      ∧ let libraries :=
          [polyfill, replacement, interfaceWithM "I" "()V" [], companionWithM "I" "()V"]
        let once := (weave conventions (.ofClasses libraries) [caller, carrier]).classes
        Steady conventions libraries [caller, carrier]
          ∧ once.map (·.interfaces) = [[], ["r/_I"]]
          ∧ once.map (·.methods.map (·.name)) = [["m"], ["<init>", "_lambdaFactory$", "m"]]
          ∧ (weave conventions (.ofClasses libraries) once).classes = once
          ∧ ∀ c ∈ once, Settled (surroundings conventions (.ofClasses libraries) once) c := by
  have hwoven : (do
      let conventions ← polyfillsInR.conventions.toOption
      let caller ← (ClassFile.parse callsXAndCarrier).toOption
      let carrier ← (ClassFile.parse carrierOfI).toOption
      let polyfill ← (ClassFile.parse carriedPolyfill).toOption
      let replacement ← (ClassFile.parse polyfillOfX).toOption
      let libraries :=
        [polyfill, replacement, interfaceWithM "I" "()V" [], companionWithM "I" "()V"]
      let once := (weave conventions (.ofClasses libraries) [caller, carrier]).classes
      return decide (Steady conventions libraries [caller, carrier]
        ∧ once.map (·.interfaces) = [[], ["r/_I"]]
        ∧ once.map (·.methods.map (·.name)) = [["m"], ["<init>", "_lambdaFactory$", "m"]]))
      = some true := by
    decide +kernel
  simp only [toOption_bind_eq_some] at hwoven
  obtain ⟨conventions, hconventions, caller, hcaller, carrier, hcarrier, polyfill, hpolyfill,
    replacement, hreplacement, hall⟩ := hwoven
  obtain ⟨hsteady, hinterfaces, hmethods⟩ := of_decide_eq_true (Option.some.inj hall)
  refine ⟨conventions, caller, carrier, polyfill, replacement, hconventions, hcaller, hcarrier,
    hpolyfill, hreplacement, ?_⟩
  intro libraries once
  -- Both classes were read from bytes, which is what the theorem asks of a batch.
  have hbatch : ∀ c ∈ [caller, carrier], ∃ bs, ClassFile.parse bs = .ok c := by
    intro c hc
    rw [List.mem_pair] at hc
    rcases hc with rfl | rfl
    · exact ⟨callsXAndCarrier, hcaller⟩
    · exact ⟨carrierOfI, hcarrier⟩
  obtain ⟨hiff, hsame⟩ :=
    weave_weave_classes hconventions (.ofClasses libraries) [caller, carrier] hbatch
  have hsame := hsame libraries rfl hsteady
  exact ⟨hsteady, hinterfaces, hmethods, hsame, hiff.1 hsame⟩

end ClassLoom.Weave
