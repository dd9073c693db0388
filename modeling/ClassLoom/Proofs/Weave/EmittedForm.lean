import ClassLoom.Proofs.CodePatch.Changes
import ClassLoom.Proofs.Weave.Emission
import ClassLoom.Proofs.Weave.Rewriting

/-!
# Instructions for rewritten ones

What stands in a new body for an instruction that is rewritten (`Emits`): moves of operands and
the call, or the `new` of another class. All of it is well-formed and goes nowhere.

* `changes_of_patchFor`: the patch for the sites of a body, as calls that make it.
-/

namespace ClassLoom

open ConstantPool

namespace Instruction

/-! ## Written forms

Whatever is put into a body has to be well-formed, so that the new body decodes to what was
assembled. The instructions that are put there have few forms: those with a word behind the opcode,
and accesses to local variables, which are short, long or wide by the slot. -/

/-- Whether an opcode is one of instructions that take up `n` bytes and are no branch. -/
def IsFixed (op : UInt8) (n : Nat) : Prop :=
  Opcode.isShortBranch op = false ∧ Opcode.isWideBranch op = false
    ∧ op ≠ Opcode.tableSwitch ∧ op ≠ Opcode.lookupSwitch ∧ op ≠ Opcode.wide
    ∧ fixedLength? op = some n

instance (op : UInt8) (n : Nat) : Decidable (IsFixed op n) := by
  unfold IsFixed
  infer_instance

/-- Instructions of such an opcode are whole if they are of that length. -/
theorem isWhole_of_isFixed {op : UInt8} {rest : Bytes} (h : IsFixed op (rest.length + 1)) :
    IsWhole (op :: rest) := by
  obtain ⟨hshort, hwideBranch, htable, hlookup, hwide, hlength⟩ := h
  exact ⟨hshort, hwideBranch, htable, hlookup, by rw [if_neg hwide, hlength]⟩

theorem wellFormed_withWord {op : UInt8} (h : IsFixed op 3) (index : UInt16) :
    (withWord op index).WellFormed :=
  isWhole_of_isFixed h

/-- An access to a local variable is well-formed in each form that it has. The slot decides which
one it is. -/
theorem wellFormed_localAccess {opcode short : UInt8} {slot : UInt16}
    (hshort : ∀ n : Fin 4, IsFixed (short + UInt8.ofNat n) 1) (hbyte : IsFixed opcode 2)
    (hwide : wideLength? opcode = some 4) : (localAccess opcode short slot).WellFormed := by
  unfold localAccess
  split
  · next h =>
    have hfixed := hshort ⟨slot.toNat, h⟩
    have hslot : slot.toUInt8 = UInt8.ofNat slot.toNat := by simp
    rw [hslot]
    exact isWhole_of_isFixed hfixed
  · split
    · exact isWhole_of_isFixed hbyte
    · refine ⟨by decide, by decide, by decide, by decide, ?_⟩
      rw [if_pos rfl]
      exact hwide

/-- Loads and stores are well-formed for values of all families. -/
theorem wellFormed_familyAccess {opcode short : UInt8}
    (h : ∀ f : Fin 5, (∀ n : Fin 4, IsFixed (short + UInt8.ofNat f * 4 + UInt8.ofNat n) 1)
      ∧ IsFixed (opcode + UInt8.ofNat f) 2 ∧ wideLength? (opcode + UInt8.ofNat f) = some 4)
    (type : FieldType) (slot : UInt16) :
    (localAccess (opcode + family type) (short + family type * 4) slot).WellFormed := by
  -- There are five families and four short forms of each, so what is asked can be decided.
  obtain ⟨f, hf⟩ := Machine.family_lt type
  obtain ⟨hshort, hbyte, hwide⟩ := h f
  rw [hf]
  exact wellFormed_localAccess hshort hbyte hwide

/-- Accesses to local variables go nowhere else. -/
theorem targets_localAccess (opcode short : UInt8) (slot : UInt16) :
    (localAccess opcode short slot).targets = [] := by
  unfold localAccess
  split
  · rfl
  · split <;> rfl

/-- Whether an instruction moves an operand between the stack and a local variable, or casts
one. -/
inductive IsMove : Instruction → Prop where
  | load (type : FieldType) (slot : UInt16) : IsMove (.load type slot)
  | store (type : FieldType) (slot : UInt16) : IsMove (.store type slot)
  | cast (index : UInt16) : IsMove (.withWord Opcode.checkCast index)

/-- Moves are well-formed and go nowhere. -/
theorem IsMove.wellFormed {i : Instruction} (h : i.IsMove) : i.WellFormed ∧ i.targets = [] := by
  cases h with
  | load type slot =>
    exact ⟨wellFormed_familyAccess (by decide) type slot, targets_localAccess ..⟩
  | store type slot =>
    exact ⟨wellFormed_familyAccess (by decide) type slot, targets_localAccess ..⟩
  | cast index => exact ⟨wellFormed_withWord (by decide) index, rfl⟩

end Instruction

/-! ## Moves of a site

Everything in front of the new call is a load, a store or a cast. -/

namespace CallSite

section Moves

variable {site : CallSite} {base : UInt16} {start last : ConstantPool} {moves : List Instruction}
  {width : Nat}

/-- A cast is a move. -/
theorem isMove_of_castTo {name : String} {i : Instruction}
    (h : castTo name start = .ok i last) : i.IsMove := by
  obtain ⟨index, mid, _, hend⟩ := Interning.bind_eq_ok.1 h
  obtain ⟨rfl, _⟩ := Interning.pure_eq_ok.1 hend
  exact .cast index

/-- Loading an argument is a load, with a cast behind it or not. The class of the cast is
interned. -/
theorem isMove_of_loadArg {arg : (FieldType × Option String) × UInt16}
    (h : loadArg arg start = .ok moves last) : ∀ i ∈ moves, i.IsMove := by
  obtain ⟨⟨type, cast⟩, slot⟩ := arg
  cases cast with
  | none =>
    obtain ⟨rfl, _⟩ := Interning.pure_eq_ok.1 h
    simp only [List.mem_singleton, forall_eq]
    exact .load type slot
  | some name =>
    obtain ⟨check, mid, hcheck, hend⟩ := Interning.bind_eq_ok.1 h
    obtain ⟨rfl, _⟩ := Interning.pure_eq_ok.1 hend
    exact List.forall_mem_cons.2 ⟨.load type slot,
      List.forall_mem_singleton.2 (isMove_of_castTo hcheck)⟩

/-- A receiver is stored, loaded and cast. -/
theorem isMove_of_reloadReceiver {cast : String}
    (h : reloadReceiver base cast start = .ok moves last) : ∀ i ∈ moves, i.IsMove := by
  obtain ⟨slot, _, h⟩ := Interning.lift_bind_eq_ok.1 h
  obtain ⟨check, mid, hcheck, hend⟩ := Interning.bind_eq_ok.1 h
  obtain ⟨rfl, _⟩ := Interning.pure_eq_ok.1 hend
  exact List.forall_mem_cons.2 ⟨.store receiverType slot, List.forall_mem_cons.2
    ⟨.load receiverType slot, List.forall_mem_singleton.2 (isMove_of_castTo hcheck)⟩⟩

/-- Spilling only moves operands: it is put together from these. Stores come first, then the
receiver, and then the arguments in order. -/
theorem isMove_of_spill (h : spill site base start = .ok (moves, width) last) :
    ∀ i ∈ moves, i.IsMove := by
  have hstores (args : List ((FieldType × Option String) × UInt16)) :
      ∀ i ∈ args.reverse.map fun arg => Instruction.store arg.1.1 arg.2, i.IsMove := by
    intro i hi
    obtain ⟨⟨⟨type, _⟩, slot⟩, _, rfl⟩ := List.mem_map.1 hi
    exact .store type slot
  have hloads {args : List ((FieldType × Option String) × UInt16)} {start last : ConstantPool}
      {loads : List (List Instruction)} (h : args.mapM loadArg start = .ok loads last) :
      ∀ i ∈ loads.flatten, i.IsMove := by
    intro i hi
    obtain ⟨load, hload, hi⟩ := List.mem_flatten.1 hi
    obtain ⟨arg, _, before, after, hrun⟩ := Interning.exists_of_mem_mapM h hload
    exact isMove_of_loadArg hrun i hi
  -- The receiver is moved only if it is cast.
  cases hcast : site.receiverCast with
  | none =>
    obtain ⟨slots, loads, _, hrun, rfl⟩ := Machine.spill_eq_ok_of_none hcast h
    exact List.forall_mem_append.2 ⟨hstores _, hloads hrun⟩
  | some cast =>
    obtain ⟨slots, reload, loads, mid, _, hreload, hrun, rfl⟩ :=
      Machine.spill_eq_ok_of_some hcast h
    exact List.forall_mem_append.2 ⟨hstores _,
      List.forall_mem_append.2 ⟨isMove_of_reloadReceiver hreload, hloads hrun⟩⟩

end Moves
end CallSite

/-! ## What is emitted

`Emits` says what stands for a rewritten instruction in the new body: a `new` of another class, or
moves with a call behind them. It says so by meaning, in the pool of the new class, and not by
bytes. -/

namespace Redirection

open CallSite (Invokes)

/-- Whether instructions are what stands for a rewritten one, in a class with the given pool. -/
inductive Emits (pool : ConstantPool) : Rewriting → List Instruction → Prop where
  | call (callee : Invocation) (moves : List Instruction) (i : Instruction)
    (hmoves : ∀ j ∈ moves, j.IsMove) (h : Invokes pool i callee) :
    Emits pool (.call callee) (moves ++ [i])
  | make (name : String) (index : UInt16) (h : pool.getClassName index = .ok name) :
    Emits pool (.make name) [.withWord Opcode.newObject index]

section Emitted

variable {s : Surroundings} {pool pool' start last : ConstantPool} {r : Rewriting}
  {is : List Instruction}

theorem Emits.grown (h : Emits pool r is) (hgrown : Grown pool pool') : Emits pool' r is := by
  cases h with
  | call callee moves i hmoves h => exact .call callee moves i hmoves (h.grown hgrown)
  | make name index h => exact .make name index (hgrown.getClassName h)

/-- Something is emitted for everything. So no instruction vanishes. -/
theorem Emits.ne_nil (h : Emits pool r is) : is ≠ [] := by
  cases h <;> simp

/-- Whether an opcode is one of calls, constructor calls among them. -/
def isInvoke (op : UInt8) : Bool := isCall op || op = Opcode.invokeSpecial

/-- A call without an object goes to one without an object. -/
theorem GoesTo.isCall {opcode : UInt8} {target : MemberRef} {callee : Invocation}
    (h : GoesTo s opcode target callee) : isCall callee.opcode = true := by
  cases h with
  | factory => rfl
  | mixin => rfl
  | replacement d _ polyfill =>
    unfold replacementCallee
    simp only
    split
    · rfl
    · split <;> rfl

/-- What a rewritten instruction calls is called with an opcode for it. -/
theorem isInvoke_of_rewrite {body : List (Nat × Instruction)} {e : Nat × Instruction}
    {callee : Invocation} (h : Rewrite s pool body e (.call callee)) :
    isInvoke callee.opcode = true := by
  cases h with
  | call _ _ _ _ hgoes => rw [isInvoke, hgoes.isCall, Bool.true_or]
  | construct _ _ _ _ _ _ hconstructs =>
    cases hconstructs
    rfl

/-- An instruction that makes a call is well-formed. An interface call has the number of its
operands and a zero behind the index. -/
theorem wellFormed_of_invokes {i : Instruction} {callee : Invocation} (h : Invokes pool i callee)
    (hopcode : isInvoke callee.opcode = true) : i.WellFormed ∧ i.targets = [] := by
  obtain ⟨index, _, hother, hinterface⟩ := h
  by_cases hop : callee.opcode = Opcode.invokeInterface
  · obtain ⟨d, _, _, rfl⟩ := hinterface hop
    have hfixed : Instruction.IsFixed Opcode.invokeInterface 5 := by decide
    exact ⟨Instruction.isWhole_of_isFixed hfixed, rfl⟩
  · obtain rfl := hother hop
    refine ⟨Instruction.wellFormed_withWord ?_ index, rfl⟩
    simp only [isInvoke, isCall, hop, Bool.or_eq_true, decide_eq_true_eq, or_false] at hopcode
    rcases hopcode with (h | h) | h <;> rw [h] <;> decide

/-- What stands for a rewritten instruction is well-formed and goes nowhere. -/
theorem Emits.wellFormed (h : Emits pool r is)
    (hopcode : ∀ callee, r = .call callee → isInvoke callee.opcode = true) :
    ∀ i ∈ is, i.WellFormed ∧ i.targets = [] := by
  cases h with
  | call callee moves i hmoves h =>
    exact List.forall_mem_append.2 ⟨fun j hj => (hmoves j hj).wellFormed,
      List.forall_mem_singleton.2 (wellFormed_of_invokes h (hopcode callee rfl))⟩
  | make name index h =>
    exact List.forall_mem_singleton.2 ⟨Instruction.wellFormed_withWord (by decide) index, rfl⟩

/-- **What is emitted for a site** stands for the call, in every pool that comes of the one in which
it was emitted. -/
theorem emits_of_emit {site : CallSite} {base width : UInt16} (hstart : Reachable start)
    (h : site.emit base start = .ok (is, width) last) : Emits last (.call site.call) is := by
  obtain ⟨moves, slots, mid, call, hmoves, hcall, rfl, _⟩ := CallSite.emit_eq_ok h
  have hmid := (CallSite.appends_moves site base).reachable_of_ok hstart hmoves
  refine .call site.call moves call ?_ (CallSite.invoke_spec hmid hcall)
  split at hmoves
  · exact CallSite.isMove_of_spill hmoves
  · obtain ⟨hpair, _⟩ := Interning.pure_eq_ok.1 hmoves
    cases hpair
    exact fun _ hnil => absurd hnil List.not_mem_nil

end Emitted

/-! ## Patches

The changes of a patch are collected site by site. They are told by the sites alone, whatever order
the sites come in; that no two of them are about one instruction is another matter. -/

section Patch

open CodePatch (ofChanges)

variable {base : UInt16} {pool start last : ConstantPool} {site : CallSite}

/-- Whether a change of a patch is one for a site: it puts what is emitted in the place of the
call, or of the `new`. -/
inductive ChangeFor (pool : ConstantPool) (site : CallSite) : CodeChange → Prop where
  | call (is : List Instruction) (h : Emits pool (.call site.call) is) :
    ChangeFor pool site (.replace site.pc is)
  | make (pc : Nat) (name : String) (is : List Instruction) (hnew : site.newSite = some (pc, name))
    (h : Emits pool (.make name) is) : ChangeFor pool site (.replace pc is)

/-- A change for a site stays one when the pool grows. -/
theorem ChangeFor.grown {pool' : ConstantPool} {c : CodeChange} (h : ChangeFor pool site c)
    (hgrown : Grown pool pool') : ChangeFor pool' site c := by
  cases h with
  | call is h => exact .call is (h.grown hgrown)
  | make pc name is hnew h => exact .make pc name is hnew (h.grown hgrown)

/-- A change for a site is in the place of its call, or in that of its `new`. -/
theorem ChangeFor.replace_cases {pc : Nat} {is : List Instruction}
    (h : ChangeFor pool site (.replace pc is)) :
    pc = site.pc ∧ Emits pool (.call site.call) is
      ∨ ∃ name, site.newSite = some (pc, name) ∧ Emits pool (.make name) is := by
  cases h with
  | call _ h => exact .inl ⟨rfl, h⟩
  | make _ name _ hnew h => exact .inr ⟨name, hnew, h⟩

/-- Whether the changes of a patch are those for the given sites, all of them. -/
structure ChangesFor (pool : ConstantPool) (sites : List CallSite) (changes : List CodeChange) :
    Prop where
  sound : ∀ c ∈ changes, ∃ site ∈ sites, ChangeFor pool site c
  call : ∀ site ∈ sites, ∃ is, .replace site.pc is ∈ changes
  make : ∀ site ∈ sites, ∀ pc name, site.newSite = some (pc, name) → ∃ is, .replace pc is ∈ changes

/-- The changes for sites stay such when the pool grows. -/
theorem ChangesFor.grown {sites : List CallSite} {pool' : ConstantPool} {changes : List CodeChange}
    (h : ChangesFor pool sites changes) (hgrown : Grown pool pool') :
    ChangesFor pool' sites changes where
  sound c hc := by
    obtain ⟨site, hsite, hchange⟩ := h.sound c hc
    exact ⟨site, hsite, hchange.grown hgrown⟩
  call := h.call
  make := h.make

/-- Changes for one more site, in front of those for the others. Changes for one site say nothing of
another one. -/
theorem ChangesFor.cons {sites : List CallSite} {first changes : List CodeChange}
    (hfirst : ChangesFor pool [site] first) (hrest : ChangesFor pool sites changes) :
    ChangesFor pool (site :: sites) (first ++ changes) where
  -- A change for the first site, or for one of the others.
  sound := by
    refine List.forall_mem_append.2 ⟨fun c hc => ?_, fun c hc => ?_⟩
    · obtain ⟨site', hsite', hchange⟩ := hfirst.sound c hc
      exact ⟨site, List.mem_cons_self .., List.mem_singleton.1 hsite' ▸ hchange⟩
    · obtain ⟨site', hsite', hchange⟩ := hrest.sound c hc
      exact ⟨site', List.mem_cons_of_mem _ hsite', hchange⟩
  call := by
    refine List.forall_mem_cons.2 ⟨?_, fun site' hsite' => ?_⟩
    · obtain ⟨is, his⟩ := hfirst.call site (List.mem_singleton.2 rfl)
      exact ⟨is, List.mem_append_left _ his⟩
    · obtain ⟨is, his⟩ := hrest.call site' hsite'
      exact ⟨is, List.mem_append_right _ his⟩
  make := by
    refine List.forall_mem_cons.2 ⟨fun pc name hnew => ?_, fun site' hsite' pc name hnew => ?_⟩
    · obtain ⟨is, his⟩ := hfirst.make site (List.mem_singleton.2 rfl) pc name hnew
      exact ⟨is, List.mem_append_left _ his⟩
    · obtain ⟨is, his⟩ := hrest.make site' hsite' pc name hnew
      exact ⟨is, List.mem_append_right _ his⟩

theorem ofChanges_append (changes more : List CodeChange) :
    more.foldl CodeChange.applyTo (ofChanges changes) = ofChanges (changes ++ more) := by
  rw [ofChanges, ofChanges, List.foldl_append]

/-- What a site adds to a patch: a change for its call, and one for its `new` if it has one. Both
are replacements. -/
theorem changes_of_patchOne {changes : List CodeChange} {patch : CodePatch} {width width' : UInt16}
    (hstart : Reachable start)
    (h : CallSite.patchOne base (ofChanges changes, width) site start = .ok (patch, width') last) :
    ∃ more, patch = ofChanges (changes ++ more) ∧ ChangesFor last [site] more := by
  obtain ⟨⟨emitted, slots⟩, mid, hemit, h⟩ := Interning.bind_eq_ok.1 h
  have hemits := emits_of_emit hstart hemit
  have hmid := (CallSite.appends_emit site base).reachable_of_ok hstart hemit
  cases hnew : site.newSite with
  -- A call without an object changes one instruction.
  | none =>
    simp only [hnew] at h
    obtain ⟨hpair, rfl⟩ := Interning.pure_eq_ok.1 h
    cases hpair
    refine ⟨[.replace site.pc emitted], ofChanges_append changes [.replace site.pc emitted],
      ?_, ?_, ?_⟩
    · exact List.forall_mem_singleton.2 ⟨site, List.mem_singleton.2 rfl, .call emitted hemits⟩
    · exact List.forall_mem_singleton.2 ⟨emitted, List.mem_singleton.2 rfl⟩
    · refine List.forall_mem_singleton.2 fun pc name hsome => ?_
      rw [hnew] at hsome
      cases hsome
  -- A constructor call changes its `new` as well, whose class is interned after all that is
  -- emitted.
  | some new =>
    obtain ⟨newPc, name⟩ := new
    simp only [hnew] at h
    obtain ⟨index, mid', hindex, h⟩ := Interning.bind_eq_ok.1 h
    obtain ⟨hpair, rfl⟩ := Interning.pure_eq_ok.1 h
    cases hpair
    have hgrown := (appends_internClass name).grown_of_ok hindex
    let more : List CodeChange :=
      [.replace site.pc emitted, .replace newPc [.withWord Opcode.newObject index]]
    have hmake := Emits.make name index (internClass_spec hmid hindex)
    refine ⟨more, ofChanges_append changes more, ?_, ?_, ?_⟩
    · exact List.forall_mem_cons.2
        ⟨⟨site, List.mem_singleton.2 rfl, .call emitted (hemits.grown hgrown)⟩,
          List.forall_mem_singleton.2
            ⟨site, List.mem_singleton.2 rfl, .make newPc name _ hnew hmake⟩⟩
    · exact List.forall_mem_singleton.2 ⟨emitted, List.mem_cons_self ..⟩
    · refine List.forall_mem_singleton.2 fun pc name' hsome => ?_
      rw [hnew] at hsome
      cases hsome
      exact ⟨_, List.mem_cons_of_mem _ (List.mem_singleton.2 rfl)⟩

/-- What several sites add, each in a pool that has grown by what the one before has emitted. What
has been emitted in an earlier pool is emitted in the last one. -/
theorem changes_of_foldlM {sites : List CallSite} (changes : List CodeChange) {patch : CodePatch}
    {width width' : UInt16} (hstart : Reachable start)
    (h : sites.foldlM (CallSite.patchOne base) (ofChanges changes, width) start
      = .ok (patch, width') last) :
    ∃ more, patch = ofChanges (changes ++ more) ∧ ChangesFor last sites more := by
  induction sites generalizing changes width start with
  | nil =>
    obtain ⟨hpair, rfl⟩ := Interning.pure_eq_ok.1 h
    cases hpair
    exact ⟨[], by rw [List.append_nil], by simp, by simp, by simp⟩
  | cons site sites ih =>
    rw [List.foldlM_cons] at h
    obtain ⟨⟨patch', width''⟩, mid, hone, h⟩ := Interning.bind_eq_ok.1 h
    obtain ⟨first, rfl, hfirst⟩ := changes_of_patchOne hstart hone
    have hmid := (CallSite.appends_patchOne base _ site).reachable_of_ok hstart hone
    have hgrown := (Interning.Appends.foldlM fun state site _ =>
      CallSite.appends_patchOne base state site).grown_of_ok h
    obtain ⟨more, rfl, hmore⟩ := ih _ hmid h
    exact ⟨first ++ more, by rw [List.append_assoc], (hfirst.grown hgrown).cons hmore⟩

/-- **The patch of a body** is made by a change for each call of its sites and for each `new`
that belongs to one. -/
theorem changes_of_patchFor {sites : List CallSite} {patch : CodePatch} {width : UInt16}
    (hstart : Reachable start) (h : CallSite.patchFor base sites start = .ok (patch, width) last) :
    ∃ changes, patch = ofChanges changes ∧ ChangesFor last sites changes := by
  obtain ⟨changes, hpatch, hchanges⟩ := changes_of_foldlM [] hstart h
  exact ⟨changes, hpatch, hchanges⟩

end Patch
end Redirection
end ClassLoom
