import ClassLoom.Proofs.CodePatch.Body
import ClassLoom.Proofs.Weave.Attempts
import ClassLoom.Proofs.Weave.EmittedForm

/-!
# Bodies with redirected calls

The body of a method whose calls are redirected is the old one in the old order
(`RedirectedBody`). What is rewritten by a rule has become what is emitted for it, and all else
has stayed, with its targets moved.

* `redirectedBody_of_redirectCode`: the body that sites give;
* `outcome_of_redirectMethod`: what becomes of a method, in each case.
-/

namespace ClassLoom

open ConstantPool

namespace Redirection

/-- Whether instructions are what an instruction of a body becomes: what is emitted for it where
it is rewritten, and otherwise the instruction itself. -/
structure Becomes (s : Surroundings) (pool last : ConstantPool) (body : List (Nat × Instruction))
    (e : Nat × Instruction) (is : List Instruction) : Prop where
  rewritten : ∀ r, Rewrite s pool body e r → Emits last r is
  kept : (∀ r, ¬ Rewrite s pool body e r) → is = [e.2]

/-- What redirecting calls makes of a decoded body: `moved` is the new one, in which `became`
tells what stands for an old instruction, and `newOffset` where that starts. -/
structure RedirectedBody (s : Surroundings) (pool last : ConstantPool)
    (body moved : List (Nat × Instruction)) (became : Nat × Instruction → List Instruction)
    (newOffset : Nat → Nat) : Prop where
  /-- Where there is a rule it is followed, and only there. -/
  becomes : ∀ e ∈ body, Becomes s pool last body e (became e)
  /-- Dynamic calls and calls of `invokespecial` that are none of constructors stay. -/
  spared : ∀ e ∈ body, e.2.opcode = Opcode.invokeDynamic
      ∨ e.2.opcode = Opcode.invokeSpecial ∧ constructor? pool e.2 = none → became e = [e.2]
  /-- The old order stays. Targets move, and a `goto` or `jsr` may get its wide form. -/
  instructions : List.Forall₂ (Instruction.Relocated newOffset) (body.flatMap became)
    (moved.map (·.2))
  targets : ∀ i ∈ body.flatMap became, ∀ t ∈ i.targets, t ∈ body.map (·.1)
  offsets : ∀ front e back, body = front ++ e :: back →
    (moved.map (·.1))[(front.flatMap became).length]? = some (newOffset e.1)

/-- What is said of the new body is said in any later pool, too. -/
theorem RedirectedBody.grown {s : Surroundings} {pool last later : ConstantPool}
    {body moved : List (Nat × Instruction)} {became : Nat × Instruction → List Instruction}
    {newOffset : Nat → Nat} (h : RedirectedBody s pool last body moved became newOffset)
    (hgrown : Grown last later) : RedirectedBody s pool later body moved became newOffset where
  becomes e he :=
    ⟨fun r hr => ((h.becomes e he).rewritten r hr).grown hgrown, (h.becomes e he).kept⟩
  spared := h.spared
  instructions := h.instructions
  targets := h.targets
  offsets := h.offsets

section Body

open CodePatch (PatchedBody)
open CodeChange (inserted successors expansion)

variable {s : Surroundings} {pool last : ConstantPool} {location : Location} {code : Code}
  {body moved : List (Nat × Instruction)} {sites : List CallSite} {diagnostics : List Diagnostic}
  {changes : List CodeChange} {e : Nat × Instruction}

/-- Neither dynamic calls nor calls of `invokespecial` have a rule, constructor calls apart. So what
they call is what they called. -/
theorem not_rewrite_of_spared (hpcs : (body.map (·.1)).Pairwise (· < ·)) (he : e ∈ body)
    (h : e.2.opcode = Opcode.invokeDynamic
      ∨ e.2.opcode = Opcode.invokeSpecial ∧ constructor? pool e.2 = none) (r : Rewriting) :
    ¬ Rewrite s pool body e r := by
  intro hrewrite
  have hcall : isCall e.2.opcode = false := by
    rcases h with hop | ⟨hop, _⟩ <;> rw [hop] <;> rfl
  -- A rule makes a call of the instruction or a `new`, and it was neither before.
  cases r with
  | call callee =>
    rcases opcode_of_rewrite_call hrewrite with hother | hconstructor
    · rw [hcall] at hother
      cases hother
    · rcases h with hop | ⟨_, hnone⟩
      · rw [opcode_of_constructor? hconstructor] at hop
        cases hop
      · rw [hnone] at hconstructor
        cases hconstructor
  | make name =>
    obtain ⟨owner, hmade⟩ := made?_of_rewrite_make hpcs he hrewrite
    rcases h with hop | ⟨hop, _⟩ <;> rw [opcode_of_made? hmade] at hop <;> cases hop

/-- Changes that are for sites only replace. -/
theorem expansion_of_changesFor (h : ChangesFor last sites changes) (e : Nat × Instruction) :
    expansion changes e = successors changes e.1 e.2 := by
  have hnone : inserted changes e.1 = [] := by
    refine List.flatMap_eq_nil_iff.2 fun c hc => ?_
    obtain ⟨site, _, hchange⟩ := h.sound c hc
    cases hchange <;> rfl
  rw [expansion, hnone, List.nil_append]

/-- The changes for planned sites are made to well-formed instructions that go nowhere. None of them
is a branch or a switch. -/
theorem wellFormed_of_changesFor (hplanned : Scanned s pool location code body sites diagnostics)
    (h : ChangesFor last sites changes) (size : Nat) : ∀ c ∈ changes, c.WellFormed size := by
  have hforms {r : Rewriting} {is : List Instruction} (hemits : Emits last r is)
      (hopcode : ∀ callee, r = .call callee → isInvoke callee.opcode = true) (pc : Nat) :
      (CodeChange.replace pc is).WellFormed size := by
    refine ⟨hemits.ne_nil, fun i hi => ?_⟩
    obtain ⟨hwf, htargets⟩ := hemits.wellFormed hopcode i hi
    exact ⟨hwf, by simp [htargets]⟩
  intro c hc
  obtain ⟨site, hsite, hchange⟩ := h.sound c hc
  -- Whether a call or a `new` is replaced, what takes its place has been emitted for it.
  cases hchange with
  | call is hemits =>
    refine hforms hemits (fun callee hcallee => ?_) _
    cases hcallee
    obtain ⟨e, _, _, hrewrite⟩ := hplanned.rewrite_of_mem hsite
    exact isInvoke_of_rewrite hrewrite
  | make pc name is _ hemits =>
    refine hforms hemits (fun callee hcallee => ?_) _
    cases hcallee

/-- **What an instruction becomes** by the changes for planned sites. It is rewritten exactly where
it has a rule. -/
theorem becomes_of_changesFor (hpcs : (body.map (·.1)).Pairwise (· < ·))
    (hplanned : Scanned s pool location code body sites diagnostics)
    (h : ChangesFor last sites changes) (he : e ∈ body) :
    Becomes s pool last body e (successors changes e.1 e.2) := by
  rcases CodeChange.successors_cases changes e.1 e.2 with hmem | ⟨hnone, hkept⟩
  · -- A replacement at the offset is one for a site there, so the instruction has its rule.
    have hone : ∃ r, Rewrite s pool body e r ∧ Emits last r (successors changes e.1 e.2) := by
      -- The replacement is that of a call, or of the `new` of a constructor call.
      obtain ⟨site, hsite, hchange⟩ := h.sound _ hmem
      rcases hchange.replace_cases with ⟨hpc, hemits⟩ | ⟨name, hnew, hemits⟩
      · obtain ⟨e', he', hpc', hrewrite⟩ := hplanned.rewrite_of_mem hsite
        obtain rfl := eq_of_pc_eq hpcs he' he (hpc'.trans hpc.symm)
        exact ⟨_, hrewrite, hemits⟩
      · exact ⟨_, hplanned.rewrite_of_newSite hsite hnew, hemits⟩
    obtain ⟨r, hrewrite, hemits⟩ := hone
    refine ⟨fun r' hrewrite' => ?_, fun hnever => absurd hrewrite (hnever r)⟩
    rwa [hrewrite'.unique hpcs he hrewrite]
  · -- A rule would have a site, and the site a replacement.
    refine ⟨fun r hrewrite => ?_, fun _ => hkept⟩
    cases r with
    | call callee =>
      obtain ⟨site, hsite, hpc⟩ := hplanned.exists_site he hrewrite
      obtain ⟨is, his⟩ := h.call site hsite
      exact absurd (hpc ▸ his) (hnone is)
    | make name =>
      obtain ⟨site, hsite, name', hnew⟩ := hplanned.exists_newSite hrewrite
      obtain ⟨is, his⟩ := h.make site hsite e.1 name' hnew
      exact absurd his (hnone is)

/-- **A body patched for planned sites** is the old one with its calls redirected. Nothing is put in
front of an instruction, so that old offsets lead to what the instructions became. -/
theorem redirectedBody_of_patchedBody {newOffset : Nat → Nat}
    (hpcs : (body.map (·.1)).Pairwise (· < ·))
    (hplanned : Scanned s pool location code body sites diagnostics)
    (h : ChangesFor last sites changes) (hpatched : PatchedBody changes body moved newOffset) :
    RedirectedBody s pool last body moved (expansion changes) newOffset where
  becomes e he := by
    rw [expansion_of_changesFor h]
    exact becomes_of_changesFor hpcs hplanned h he
  spared e he hspared := by
    rw [expansion_of_changesFor h]
    exact (becomes_of_changesFor hpcs hplanned h he).kept (not_rewrite_of_spared hpcs he hspared)
  instructions := hpatched.instructions
  targets := hpatched.targets
  offsets front e back hbody := by
    have hinserted : inserted changes e.1 = [] :=
      List.append_left_eq_self.1 (expansion_of_changesFor h e)
    have hoffset := hpatched.offsets front e.1 e.2 back hbody
    rwa [hinserted, List.length_nil, Nat.add_zero] at hoffset

end Body
end Redirection

namespace Weave

open Redirection

section Method

variable {s : Surroundings} {className : String} {m m' : Member} {pool last : ConstantPool}
  {code redirected : Code} {sites : List CallSite} {diagnostics : List Diagnostic}

/-- **What redirecting calls makes of a body.** Room for variables and new frames leave its code
alone. -/
theorem redirectedBody_of_redirectCode {location : Location} {body : List (Nat × Instruction)}
    (hpool : Reachable pool) (hdecode : Instruction.decode code.bytecode = .ok body)
    (hplanned : Scanned s pool location code body sites diagnostics)
    (h : redirectCode s className m code sites pool = .ok redirected last) :
    ∃ moved became newOffset, Instruction.decode redirected.bytecode = .ok moved
      ∧ RedirectedBody s pool last body moved became newOffset := by
  obtain ⟨patch, width, patched, mid, hpatch, happly, hgrown, _, hend⟩ := redirectCode_eq_ok h
  have hbytecode : redirected.bytecode = patched.bytecode := by
    rcases hend with rfl | ⟨_, rfl⟩ <;> rfl
  obtain ⟨changes, rfl, hchanges⟩ := changes_of_patchFor hpool hpatch
  obtain ⟨body', relaxed, hdecode', hrelax, hbytes, _⟩ := CodePatch.apply_eq_ok happly
  rw [hdecode] at hdecode'
  cases hdecode'
  have hwf := wellFormed_of_changesFor hplanned hchanges code.bytecode.length
  obtain ⟨moved, newOffset, hmoved, hpatched⟩ :=
    CodePatch.patchedBody_of_relax hwf hdecode hrelax hbytes
  have hpcs := (Instruction.consecutive_of_decode hdecode).pairwise
    (Instruction.wellFormed_of_decode hdecode)
  exact ⟨moved, _, newOffset, hbytecode ▸ hmoved,
    redirectedBody_of_patchedBody hpcs hplanned (hchanges.grown hgrown) hpatched⟩

/-- What becomes of a method of a class with the given pool when its calls are redirected, and
what is reported for it; `last` is the pool of the class in the end. -/
inductive Outcome (s : Surroundings) (className : String) (pool last : ConstantPool) (m : Member) :
    Member × List Diagnostic → Prop where
  /-- There is no body. -/
  | bodiless (hcode : m.code? pool = .ok none) : Outcome s className pool last m (m, [])
  /-- No instruction has a rule. -/
  | untouched (code : Code) (body : List (Nat × Instruction))
    (hcode : m.code? pool = .ok (some code))
    (hdecode : Instruction.decode code.bytecode = .ok body)
    (hreadable : ∀ e ∈ body, Readable pool e.2)
    (hnone : ∀ e ∈ body, ∀ r, ¬ Rewrite s pool body e r) :
    Outcome s className pool last m (m, body.filterMap
      (diagnostic? s pool (.ofMethod className m.name m.descriptor) code))
  /-- All instructions with a rule are rewritten. -/
  | redirected (code code' : Code) (body moved : List (Nat × Instruction))
    (became : Nat × Instruction → List Instruction) (newOffset : Nat → Nat) (info : Bytes)
    (hcode : m.code? pool = .ok (some code))
    (hdecode : Instruction.decode code.bytecode = .ok body)
    (hreadable : ∀ e ∈ body, Readable pool e.2)
    (hsome : ∃ e ∈ body, ∃ r, Rewrite s pool body e r)
    (hcode' : Member.code? { m with
        attributes := Attribute.set Code.attributeName info m.attributes } last = .ok (some code'))
    (hmoved : Instruction.decode code'.bytecode = .ok moved)
    (hbody : RedirectedBody s pool last body moved became newOffset) :
    Outcome s className pool last m
      ({ m with attributes := Attribute.set Code.attributeName info m.attributes },
        body.filterMap (diagnostic? s pool (.ofMethod className m.name m.descriptor) code))
  /-- The method cannot be read or written. -/
  | failed (e : ClassError) (h : (redirectMethod s className m).on pool = .error e) :
    Outcome s className pool last m
      (m, [.malformed (.ofMethod className m.name m.descriptor) e.message])

/-- A body in which an instruction is rewritten is not redirected to nothing. Something stands for
that instruction. -/
theorem bytecode_ne_nil_of_redirectedBody {body moved : List (Nat × Instruction)}
    {became : Nat × Instruction → List Instruction} {newOffset : Nat → Nat} {bytecode : Bytes}
    (hmoved : Instruction.decode bytecode = .ok moved)
    (h : RedirectedBody s pool last body moved became newOffset)
    (hsome : ∃ e ∈ body, ∃ r, Rewrite s pool body e r) : bytecode ≠ [] := by
  rintro rfl
  have hnil : moved = [] := by
    have hdecode : Instruction.decode [] = .ok [] := by decide +kernel
    rw [hdecode] at hmoved
    exact (Except.ok.inj hmoved).symm
  obtain ⟨e, he, r, hrewrite⟩ := hsome
  have hinstructions := h.instructions
  rw [hnil, List.map_nil, List.forall₂_nil_right_iff, List.flatMap_eq_nil_iff] at hinstructions
  exact ((h.becomes e he).rewritten r hrewrite).ne_nil (hinstructions e he)

/-- **What becomes of a method** whose calls are redirected. The pool may be any later one, since
what is in a pool stays. -/
theorem outcome_of_redirectMethod {mid : ConstantPool} {result : Member × List Diagnostic}
    (hpool : Reachable pool) (h : redirectMethod s className m pool = .ok result mid)
    (hgrown : Grown mid last) : Outcome s className pool last m result := by
  cases redirectMethod_eq_ok h with
  | bodiless hcode => exact .bodiless hcode
  | untouched code diagnostics hcode hplan =>
    obtain ⟨body, hdecode, hplanned⟩ := scanned_of_planAll hplan
    obtain rfl := hplanned.diagnostics
    -- Every rewriting would have its site.
    refine .untouched code body hcode hdecode hplanned.readable fun e he r hrewrite => ?_
    cases r with
    | call callee =>
      obtain ⟨site, hsite, _⟩ := hplanned.exists_site he hrewrite
      cases hsite
    | make name =>
      obtain ⟨site, hsite, _⟩ := hplanned.exists_newSite hrewrite
      cases hsite
  | redirected code redirected sites diagnostics m' mid' _ hcode hplan hsites hredirected hset =>
    obtain ⟨body, hdecode, hplanned⟩ := scanned_of_planAll hplan
    obtain rfl := hplanned.diagnostics
    obtain ⟨moved, became, newOffset, hmoved, hbody⟩ :=
      redirectedBody_of_redirectCode hpool hdecode hplanned hredirected
    -- A site is left, so something has been rewritten, and the new body is not empty.
    have hsome : ∃ e ∈ body, ∃ r, Rewrite s pool body e r := by
      obtain ⟨site, hsite⟩ := List.exists_mem_of_ne_nil sites hsites
      obtain ⟨e, he, _, hrewrite⟩ := hplanned.rewrite_of_mem hsite
      exact ⟨e, he, _, hrewrite⟩
    have hmid := (appends_redirectCode s className m code sites).reachable_of_ok hpool hredirected
    have hne := bytecode_ne_nil_of_redirectedBody hmoved hbody hsome
    have hcode' := Member.code?_setCode hne hmid.consistent.located hset hgrown
    have hlater := ((m.appends_setCode redirected).grown_of_ok hset).trans hgrown
    obtain ⟨info, _, rfl⟩ := Member.setCode_eq_ok hset
    exact .redirected code redirected body moved became newOffset info hcode hdecode
      hplanned.readable hsome hcode' hmoved (hbody.grown hlater)

end Method
end Weave
end ClassLoom
