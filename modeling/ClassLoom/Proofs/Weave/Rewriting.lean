import ClassLoom.Proofs.Weave.Redirection
import Mathlib.Data.List.Induction
import Mathlib.Data.List.Nodup

/-!
# Which instructions are rewritten

What becomes of the instructions of a whole body (`Rewrite`): its calls go where their rules
say, and so do the constructor calls of replacements with the `new` that each belongs to.
Planning a body gives sites for these instructions and for no others.

* `Rewrite.unique`: nothing is rewritten in two ways;
* `scanned_of_planAll`: the sites and the diagnostics that are planned for a body;
* `Scanned.rewrite_of_mem`, `Scanned.exists_site`: the sites are those of the rewritten
  instructions.
-/

namespace ClassLoom.Redirection

/-- What becomes of an instruction that has a rule. -/
inductive Rewriting where
  | call (callee : Invocation)
  /-- A `new` makes an object of another class. -/
  | make (name : String)
  deriving DecidableEq, Repr

/-- What becomes of an instruction of a body. A call goes where its rule says; a constructor
call and the `new` that it belongs to go to a replacement together. -/
inductive Rewrite (s : Surroundings) (pool : ConstantPool) (body : List (Nat × Instruction))
    (e : Nat × Instruction) : Rewriting → Prop where
  | call (target : MemberRef) (callee : Invocation) (hcall : isCall e.2.opcode = true)
    (htarget : callee? pool e.2 = some target) (h : GoesTo s e.2.opcode target callee) :
    Rewrite s pool body e (.call callee)
  | construct (front back : List (Nat × Instruction)) (newPc : Nat) (name : String)
    (callee : Invocation) (hbody : body = front ++ e :: back)
    (h : Constructs s pool (waitingBehind pool front) e.2 newPc name callee) :
    Rewrite s pool body e (.call callee)
  | make (front back : List (Nat × Instruction)) (e' : Nat × Instruction) (name : String)
    (callee : Invocation) (hbody : body = front ++ e' :: back)
    (h : Constructs s pool (waitingBehind pool front) e'.2 e.1 name callee) :
    Rewrite s pool body e (.make name)

/-! ## Waiting for constructor calls

A `new` is rewritten because of a constructor call that comes later, and the two are matched by a
stack: a `new` is put on it, and a constructor call takes the topmost one of its class off. What
follows is that the stack holds offsets of the body in falling order, so that a `new` which has been
taken off cannot come back. -/

section Waiting

variable {s : Surroundings} {pool : ConstantPool} {waiting : List (Nat × String)}
  {front body : List (Nat × Instruction)} {e : Nat × Instruction}

/-- What waits is a fold over the body, so one more instruction at the end is one more step.
Inductions over bodies go from the end here, as planning does. -/
theorem waitingBehind_concat (front : List (Nat × Instruction)) (e : Nat × Instruction) :
    waitingBehind pool (front ++ [e]) = waitOn pool (waitingBehind pool front) e := by
  rw [waitingBehind, List.foldl_append]
  rfl

/-- A step adds nothing to what waits but the instruction itself, and that only if it is a `new`. -/
theorem mem_waitOn {x : Nat × String} (h : x ∈ waitOn pool waiting e) :
    x ∈ waiting ∨ x.1 = e.1 ∧ made? pool e.2 = some x.2 := by
  unfold waitOn at h
  split at h
  -- A `new` comes on top; the others were there before.
  · next name hmade =>
    rcases List.mem_cons.1 h with rfl | h
    · exact .inr ⟨rfl, hmade⟩
    · exact .inl h
  -- A constructor call adds nothing, whether it takes the topmost one off or not.
  · next name rest _ _ =>
    split at h
    · exact .inl (List.mem_cons_of_mem _ h)
    · exact .inl h
  · exact .inl h

/-- What waits behind some instructions is a `new` among them, under the offset and the class name
of that instruction. -/
theorem made?_of_mem_waitingBehind {x : Nat × String} (h : x ∈ waitingBehind pool front) :
    ∃ i, (x.1, i) ∈ front ∧ made? pool i = some x.2 := by
  induction front using List.reverseRecOn with
  | nil => cases h
  | append_singleton front e ih =>
    rw [waitingBehind_concat] at h
    rcases mem_waitOn h with hbefore | ⟨hpc, hmade⟩
    · obtain ⟨i, hi, hmade⟩ := ih hbefore
      exact ⟨i, List.mem_append_left _ hi, hmade⟩
    · refine ⟨e.2, ?_, hmade⟩
      rw [hpc]
      exact List.mem_append_right _ (List.mem_singleton.2 rfl)

/-- In offsets, a step puts the instruction's own on top at most. Whatever else it does takes some
away, and the order of the rest stays. -/
theorem waitOn_sublist :
    ((waitOn pool waiting e).map (·.1)).Sublist (e.1 :: waiting.map (·.1)) := by
  unfold waitOn
  split
  · exact List.Sublist.refl _
  · next newPc name rest _ _ =>
    split
    · exact (List.sublist_cons_self newPc _).trans (List.sublist_cons_self e.1 _)
    · exact List.sublist_cons_self ..
  · exact List.sublist_cons_self ..

/-- What waits does so in the order of the body, latest first, and once at most. This is stated of
any part of a body with what waits in front of it, since that is what an induction needs. -/
theorem foldl_waitOn_sublist (pool : ConstantPool) (mid : List (Nat × Instruction))
    (waiting : List (Nat × String)) :
    ((mid.foldl (waitOn pool) waiting).map (·.1)).Sublist
      ((mid.map (·.1)).reverse ++ waiting.map (·.1)) := by
  induction mid generalizing waiting with
  | nil => exact List.Sublist.refl _
  | cons e mid ih =>
    rw [List.foldl_cons, List.map_cons, List.reverse_cons, List.append_assoc]
    exact (ih _).trans (waitOn_sublist.append_left _)

/-- A constructor call that belongs to a replacement takes its `new`, which is the topmost, off
those that wait. What is left is what waits behind it. -/
theorem Constructs.waiting_eq {newPc : Nat} {name : String} {callee : Invocation}
    (h : Constructs s pool waiting e.2 newPc name callee) :
    ∃ owner, waiting = (newPc, owner) :: waitOn pool waiting e := by
  cases h with
  | intro target rest polyfill d htarget hwaiting =>
    have hop := opcode_of_constructor? (by rw [htarget]; rfl)
    have hmade : made? pool e.2 = none := made?_of_ne (by rw [hop]; decide)
    refine ⟨target.owner, ?_⟩
    simp only [waitOn, hmade, htarget, hwaiting, if_true]

/-- The `new` of a constructor call is one of those that wait. -/
theorem Constructs.mem_waiting {i : Instruction} {newPc : Nat} {name : String} {callee : Invocation}
    (h : Constructs s pool waiting i newPc name callee) : newPc ∈ waiting.map (·.1) := by
  cases h with
  | intro target rest polyfill d _ hwaiting =>
    rw [hwaiting]
    exact List.mem_cons_self ..

/-- **A `new` has one constructor call**: once it has been taken, it waits no more. It stands in
front of the call that has taken it, and only instructions behind that call can wait again. -/
theorem Constructs.not_again {mid : List (Nat × Instruction)} {i : Instruction} {newPc : Nat}
    {name name' : String} {callee callee' : Invocation}
    (hpcs : ((front ++ e :: mid).map (·.1)).Pairwise (· < ·))
    (h : Constructs s pool (waitingBehind pool front) e.2 newPc name callee) :
    ¬ Constructs s pool (waitingBehind pool (front ++ e :: mid)) i newPc name' callee' := by
  intro hagain
  -- What waits further on is the rest of what waited, and what came after it. The offset is
  -- neither among the later ones nor twice among those in front.
  obtain ⟨owner, hwaiting⟩ := h.waiting_eq
  generalize hrest : waitOn pool (waitingBehind pool front) e = rest at hwaiting
  have hlater : waitingBehind pool (front ++ e :: mid) = mid.foldl (waitOn pool) rest := by
    rw [waitingBehind, List.foldl_append, List.foldl_cons]
    exact congrArg (fun waiting => mid.foldl (waitOn pool) waiting) hrest
  have hmem : newPc ∈ (mid.map (·.1)).reverse ++ rest.map (·.1) := by
    refine (foldl_waitOn_sublist pool mid rest).subset ?_
    rw [← hlater]
    exact hagain.mem_waiting
  have hfront := foldl_waitOn_sublist pool front []
  rw [List.map_nil, List.append_nil] at hfront
  change ((waitingBehind pool front).map (·.1)).Sublist _ at hfront
  rw [hwaiting, List.map_cons] at hfront
  rw [List.map_append, List.pairwise_append, List.map_cons, List.pairwise_cons] at hpcs
  obtain ⟨hfrontPcs, _, hbefore⟩ := hpcs
  have hnewPc : newPc ∈ front.map (·.1) :=
    List.mem_reverse.1 (hfront.subset (List.mem_cons_self ..))
  rcases List.mem_append.1 hmem with hmem | hmem
  · have := hbefore newPc hnewPc newPc (List.mem_cons_of_mem _ (List.mem_reverse.1 hmem))
    omega
  · have hreversed : ((front.map (·.1)).reverse).Nodup :=
      List.nodup_reverse.2 (hfrontPcs.imp Nat.ne_of_lt)
    exact (List.nodup_cons.1 (hreversed.sublist hfront)).1 hmem

end Waiting

/-! ## One way to rewrite

An instruction is rewritten in one way at most, since the body in front of it settles what waits. -/

section Unique

variable {s : Surroundings} {pool : ConstantPool} {body : List (Nat × Instruction)}
  {e e' : Nat × Instruction}

/-- Instructions at one offset are the same, since the offsets of a body rise. -/
theorem eq_of_pc_eq (hpcs : (body.map (·.1)).Pairwise (· < ·)) (he : e ∈ body) (he' : e' ∈ body)
    (hpc : e.1 = e'.1) : e = e' :=
  List.inj_on_of_nodup_map (hpcs.imp Nat.ne_of_lt) he he' hpc

/-- A body has an instruction at one place, so what stands in front of it is the same however the
body is split there. -/
theorem front_eq_of_split {front back front' back' : List (Nat × Instruction)}
    (hpcs : (body.map (·.1)).Pairwise (· < ·)) (hbody : body = front ++ e :: back)
    (hbody' : body = front' ++ e :: back') : front = front' := by
  -- An instruction that stood once more behind itself would have two offsets.
  have hnever {front mid back : List (Nat × Instruction)}
      (h : body = front ++ e :: mid ++ e :: back) : False := by
    rw [h, List.append_assoc, List.map_append, List.pairwise_append, List.cons_append,
      List.map_cons, List.pairwise_cons, List.map_append, List.map_cons] at hpcs
    exact Nat.lt_irrefl _ (hpcs.2.1.1 e.1 (List.mem_append_right _ (List.mem_cons_self ..)))
  rcases List.append_eq_append_iff.1 (hbody.symm.trans hbody') with
    ⟨mid, hfront, hmid⟩ | ⟨mid, hfront, hmid⟩
  · cases mid with
    | nil => rw [hfront, List.append_nil]
    | cons first mid =>
      obtain ⟨rfl, _⟩ := List.cons.inj hmid
      exact (hnever (hfront ▸ hbody')).elim
  · cases mid with
    | nil => rw [hfront, List.append_nil]
    | cons first mid =>
      obtain ⟨rfl, _⟩ := List.cons.inj hmid
      exact (hnever (hfront ▸ hbody)).elim

/-- Two constructor calls of one `new` are the same instruction. One of them would come first, take
the `new` away and leave nothing for the other. -/
theorem Constructs.front_unique {front back front' back' : List (Nat × Instruction)} {newPc : Nat}
    {name name' : String} {callee callee' : Invocation}
    (hpcs : (body.map (·.1)).Pairwise (· < ·)) (hbody : body = front ++ e :: back)
    (hbody' : body = front' ++ e' :: back')
    (h : Constructs s pool (waitingBehind pool front) e.2 newPc name callee)
    (h' : Constructs s pool (waitingBehind pool front') e'.2 newPc name' callee') :
    front = front' ∧ e = e' := by
  rcases List.append_eq_append_iff.1 (hbody.symm.trans hbody') with
    ⟨mid, rfl, hmid⟩ | ⟨mid, rfl, hmid⟩
  -- The first call is in front of the second, and the second has nothing left to take.
  · cases mid with
    | nil =>
      cases hmid
      exact ⟨(List.append_nil _).symm, rfl⟩
    | cons first mid =>
      obtain ⟨rfl, _⟩ := List.cons.inj hmid
      rw [hbody', List.map_append, List.pairwise_append] at hpcs
      exact absurd h' (h.not_again hpcs.1)
  -- The other way round, with the two calls exchanged.
  · cases mid with
    | nil =>
      cases hmid
      exact ⟨List.append_nil _, rfl⟩
    | cons first mid =>
      obtain ⟨rfl, _⟩ := List.cons.inj hmid
      rw [hbody, List.map_append, List.pairwise_append] at hpcs
      exact absurd h (h'.not_again hpcs.1)

/-- What a constructor call goes to is told by what waits in front of it: the callee, its polyfill
and the descriptor are all read from the call itself. -/
theorem Constructs.unique {waiting : List (Nat × String)} {i : Instruction} {newPc newPc' : Nat}
    {name name' : String} {callee callee' : Invocation}
    (h : Constructs s pool waiting i newPc name callee)
    (h' : Constructs s pool waiting i newPc' name' callee') :
    newPc = newPc' ∧ name = name' ∧ callee = callee' := by
  cases h with
  | intro target rest polyfill d htarget hwaiting hpolyfill hkind hd =>
    cases h' with
    | intro target' rest' polyfill' d' htarget' hwaiting' hpolyfill' hkind' hd' =>
      rw [htarget] at htarget'
      cases htarget'
      rw [hpolyfill] at hpolyfill'
      cases hpolyfill'
      rw [hd] at hd'
      cases hd'
      rw [hwaiting] at hwaiting'
      cases hwaiting'
      exact ⟨rfl, rfl, rfl⟩

/-- What is made anew is a `new`. The rule speaks of a constructor call at another place, so the
instruction itself is found through its offset among those that wait. -/
theorem made?_of_rewrite_make {name : String} (hpcs : (body.map (·.1)).Pairwise (· < ·))
    (he : e ∈ body) (h : Rewrite s pool body e (.make name)) :
    ∃ owner, made? pool e.2 = some owner := by
  cases h with
  | make front back e' name callee hbody hconstructs =>
    obtain ⟨owner, hwaiting⟩ := hconstructs.waiting_eq
    obtain ⟨i, hi, hmade⟩ := made?_of_mem_waitingBehind (hwaiting ▸ List.mem_cons_self ..)
    have hmem : (e.1, i) ∈ body := hbody ▸ List.mem_append_left _ hi
    have hsame : e = (e.1, i) := eq_of_pc_eq hpcs he hmem rfl
    exact ⟨owner, by rw [hsame]; exact hmade⟩

/-- What is called anew is a call, or a constructor call. -/
theorem opcode_of_rewrite_call {callee : Invocation} (h : Rewrite s pool body e (.call callee)) :
    isCall e.2.opcode = true ∨ (constructor? pool e.2).isSome := by
  cases h with
  | call target _ hcall => exact .inl hcall
  | construct front back newPc name _ hbody hconstructs =>
    cases hconstructs with
    | intro target _ _ _ htarget => exact .inr (by rw [htarget]; rfl)

/-- **Nothing is rewritten in two ways.** The three rules ask for different opcodes, and each of
them gives one result. For a `new` the result comes from its constructor call, of which there is
one. -/
theorem Rewrite.unique {r r' : Rewriting} (hpcs : (body.map (·.1)).Pairwise (· < ·))
    (he : e ∈ body) (h : Rewrite s pool body e r) (h' : Rewrite s pool body e r') : r = r' := by
  -- The opcode tells which of the three rules it is.
  have hapart {callee : Invocation} {name : String} (hcall : Rewrite s pool body e (.call callee))
      (hmake : Rewrite s pool body e (.make name)) : False := by
    obtain ⟨owner, hmade⟩ := made?_of_rewrite_make hpcs he hmake
    have hop := opcode_of_made? hmade
    rcases opcode_of_rewrite_call hcall with hcall | hconstructor
    · rw [isCall_eq_false (.inl hop)] at hcall
      cases hcall
    · rw [opcode_of_constructor? hconstructor] at hop
      cases hop
  cases h with
  | call target callee hcall htarget hgoes =>
    cases h' with
    | call target' callee' _ htarget' hgoes' =>
      rw [htarget] at htarget'
      cases htarget'
      rw [hgoes.unique hgoes']
    | construct _ _ _ _ _ _ hconstructs => exact (hconstructs.not_isCall hcall).elim
    | make front back e' name callee' hbody hconstructs =>
      exact (hapart (.call target callee hcall htarget hgoes)
        (.make front back e' name callee' hbody hconstructs)).elim
  | construct front back newPc name callee hbody hconstructs =>
    cases h' with
    | call target' _ hcall => exact (hconstructs.not_isCall hcall).elim
    | construct front' back' newPc' name' callee' hbody' hconstructs' =>
      obtain rfl := front_eq_of_split hpcs hbody hbody'
      rw [(hconstructs.unique hconstructs').2.2]
    | make front' back' e' name' callee' hbody' hconstructs' =>
      exact (hapart (.construct front back newPc name callee hbody hconstructs)
        (.make front' back' e' name' callee' hbody' hconstructs')).elim
  | make front back e₁ name callee hbody hconstructs =>
    cases h' with
    | call target' callee' hcall htarget hgoes =>
      exact (hapart (.call target' callee' hcall htarget hgoes)
        (.make front back e₁ name callee hbody hconstructs)).elim
    | construct front' back' newPc' name' callee' hbody' hconstructs' =>
      exact (hapart (.construct front' back' newPc' name' callee' hbody' hconstructs')
        (.make front back e₁ name callee hbody hconstructs)).elim
    | make front' back' e₂ name' callee' hbody' hconstructs' =>
      obtain ⟨rfl, rfl⟩ := hconstructs.front_unique hpcs hbody hbody' hconstructs'
      rw [(hconstructs.unique hconstructs').2.1]

end Unique

/-! ## Planned sites

Planning finds a site for each call that is rewritten, and no other sites. -/

section Body

variable {s : Surroundings} {pool : ConstantPool} {location : Location} {code : Code}

/-- What is planned for the instructions `body`: a site for every call with a rule and for no
other one, and what mixins lack, in order. -/
structure Scanned (s : Surroundings) (pool : ConstantPool) (location : Location) (code : Code)
    (body : List (Nat × Instruction)) (sites : List CallSite) (diagnostics : List Diagnostic) :
    Prop where
  diagnostics : diagnostics = body.filterMap (diagnostic? s pool location code)
  sound : ∀ site ∈ sites, ∃ front e back, body = front ++ e :: back
    ∧ SiteAt s pool (waitingBehind pool front) e site
  complete : ∀ front e back, body = front ++ e :: back →
    (∃ site ∈ sites, SiteAt s pool (waitingBehind pool front) e site)
      ∨ NoSiteAt s pool (waitingBehind pool front) e
  readable : ∀ e ∈ body, Readable pool e.2

/-- One more instruction behind those that have been scanned. Sites are only ever added, so what was
planned for the instructions before stays planned. -/
theorem Scanned.concat {front : List (Nat × Instruction)} {e : Nat × Instruction}
    {p next : Planning}
    (hp : Scanned s pool location code front p.sites p.diagnostics.reverse)
    (hwaiting : p.waiting = waitingBehind pool front) (h : Visited s pool location code e p next) :
    Scanned s pool location code (front ++ [e]) next.sites next.diagnostics.reverse := by
  have hgrow : ∀ site ∈ p.sites, site ∈ next.sites := by
    intro site hsite
    rcases h.sites with ⟨_, _, hnext⟩ | ⟨_, hnext⟩
    · rw [hnext]
      exact List.mem_cons_of_mem _ hsite
    · rwa [hnext]
  refine ⟨?_, fun site hsite => ?_, fun front' e' back hbody => ?_,
    List.forall_mem_append.2 ⟨hp.readable, List.forall_mem_singleton.2 h.readable⟩⟩
  -- Diagnostics are collected latest first, so those of the last instruction come in front.
  · rw [h.diagnostics, List.reverse_append, hp.diagnostics, List.filterMap_append,
      List.filterMap_cons, List.filterMap_nil]
    cases diagnostic? s pool location code e <;> rfl
  · have hold (hsite : site ∈ p.sites) : ∃ front' e' back, front ++ [e] = front' ++ e' :: back
        ∧ SiteAt s pool (waitingBehind pool front') e' site := by
      obtain ⟨front', e', back, rfl, hat⟩ := hp.sound site hsite
      exact ⟨front', e', back ++ [e], by simp, hat⟩
    rcases h.sites with ⟨site', hat, hnext⟩ | ⟨_, hnext⟩
    · rw [hnext] at hsite
      rcases List.mem_cons.1 hsite with rfl | hsite
      · exact ⟨front, e, [], rfl, hwaiting ▸ hat⟩
      · exact hold hsite
    · rw [hnext] at hsite
      exact hold hsite
  · -- The instruction is the one that has come last, or one of those before.
    rcases List.eq_nil_or_concat back with rfl | ⟨back', last, rfl⟩
    · obtain ⟨rfl, hlast⟩ := List.append_inj' hbody rfl
      cases hlast
      rw [← hwaiting]
      rcases h.sites with ⟨site, hat, hnext⟩ | ⟨hnone, _⟩
      · exact .inl ⟨site, by rw [hnext]; exact List.mem_cons_self .., hat⟩
      · exact .inr hnone
    · have hsplit : front = front' ++ e' :: back' := by
        rw [List.concat_eq_append, ← List.cons_append, ← List.append_assoc] at hbody
        exact (List.append_inj' hbody rfl).1
      rcases hp.complete front' e' back' hsplit with ⟨site, hsite, hat⟩ | hnone
      · exact .inl ⟨site, hgrow site hsite, hat⟩
      · exact .inr hnone

/-- A scan of some instructions, in whatever state planning is in front of them. By induction on the
instructions, with what waits and the sites so far as they are then. -/
theorem scanned_of_foldlM {body : List (Nat × Instruction)} {last : Planning}
    (h : body.foldlM (Planning.visit s pool location code) {} = .ok last) :
    last.waiting = waitingBehind pool body
      ∧ Scanned s pool location code body last.sites last.diagnostics.reverse := by
  induction body using List.reverseRecOn generalizing last with
  | nil =>
    cases h
    exact ⟨rfl, rfl, by simp, by simp, by simp⟩
  | append_singleton front e ih =>
    rw [List.foldlM_append] at h
    obtain ⟨p, hp, h⟩ := bind_eq_ok.1 h
    obtain ⟨next, hvisit, hend⟩ := bind_eq_ok.1 h
    cases hend
    obtain ⟨hwaiting, hscanned⟩ := ih hp
    have hvisited := visited_of_visit hvisit
    refine ⟨?_, hscanned.concat hwaiting hvisited⟩
    rw [waitingBehind_concat, hvisited.waiting, hwaiting]

/-- **What is planned for a body.** Planning starts with nothing that waits and no site. -/
theorem scanned_of_planAll {sites : List CallSite} {diagnostics : List Diagnostic}
    (h : CallSite.planAll s pool location code = .ok (sites, diagnostics)) :
    ∃ body, Instruction.decode code.bytecode = .ok body
      ∧ Scanned s pool location code body sites diagnostics := by
  obtain ⟨body, hdecode, h⟩ := bind_eq_ok.1 h
  obtain ⟨last, hlast, hend⟩ := bind_eq_ok.1 h
  cases hend
  obtain ⟨_, hdiagnostics, hsound, hcomplete, hreadable⟩ := scanned_of_foldlM hlast
  refine ⟨body, hdecode, hdiagnostics, fun site hsite => hsound site (List.mem_reverse.1 hsite),
    fun front e back hbody => ?_, hreadable⟩
  rcases hcomplete front e back hbody with ⟨site, hsite, hat⟩ | hnone
  · exact .inl ⟨site, List.mem_reverse.2 hsite, hat⟩
  · exact .inr hnone

section Sites

variable {body : List (Nat × Instruction)} {sites : List CallSite} {diagnostics : List Diagnostic}
  {site : CallSite} {e : Nat × Instruction}

/-- Every site is one for a call that is rewritten, to what the site calls. So no site is planned
without a rule for it. -/
theorem Scanned.rewrite_of_mem (h : Scanned s pool location code body sites diagnostics)
    (hsite : site ∈ sites) :
    ∃ e ∈ body, e.1 = site.pc ∧ Rewrite s pool body e (.call site.call) := by
  obtain ⟨front, e, back, hbody, hat⟩ := h.sound site hsite
  have he : e ∈ body := by
    rw [hbody]
    exact List.mem_append_right _ (List.mem_cons_self ..)
  cases hat with
  | call target hpc hcall htarget hgoes _ =>
    exact ⟨e, he, hpc.symm, .call target site.call hcall htarget hgoes⟩
  | constructor newPc name hpc hconstructs _ =>
    exact ⟨e, he, hpc.symm, .construct front back newPc name site.call hbody hconstructs⟩

/-- The `new` of a site is rewritten, too: it makes an object of the class whose constructor the
site calls. -/
theorem Scanned.rewrite_of_newSite (h : Scanned s pool location code body sites diagnostics)
    (hsite : site ∈ sites) {name : String} (hnew : site.newSite = some (e.1, name)) :
    Rewrite s pool body e (.make name) := by
  obtain ⟨front, e', back, hbody, hat⟩ := h.sound site hsite
  cases hat with
  | call _ _ _ _ _ hnone =>
    rw [hnone] at hnew
    cases hnew
  | constructor newPc name' _ hconstructs hsome =>
    rw [hsome] at hnew
    cases hnew
    exact .make front back e' name site.call hbody hconstructs

/-- Every call that is rewritten has a site. With `Scanned.rewrite_of_mem` the sites are those of
the rewritten calls exactly. -/
theorem Scanned.exists_site (h : Scanned s pool location code body sites diagnostics)
    (he : e ∈ body) {callee : Invocation} (hrewrite : Rewrite s pool body e (.call callee)) :
    ∃ site ∈ sites, site.pc = e.1 := by
  cases hrewrite with
  | call target _ hcall htarget hgoes =>
    obtain ⟨front, back, hbody⟩ := List.append_of_mem he
    rcases h.complete front e back hbody with ⟨site, hsite, hat⟩ | hnone
    · exact ⟨site, hsite, by cases hat <;> assumption⟩
    · exact absurd hgoes (hnone.call target callee hcall htarget)
  | construct front back newPc name _ hbody hconstructs =>
    rcases h.complete front e back hbody with ⟨site, hsite, hat⟩ | hnone
    · exact ⟨site, hsite, by cases hat <;> assumption⟩
    · exact absurd hconstructs (hnone.constructor newPc name callee)

/-- Every `new` that is rewritten belongs to a site. The site is that of the constructor call which
takes it. -/
theorem Scanned.exists_newSite (h : Scanned s pool location code body sites diagnostics)
    {name : String} (hrewrite : Rewrite s pool body e (.make name)) :
    ∃ site ∈ sites, ∃ name', site.newSite = some (e.1, name') := by
  cases hrewrite with
  | make front back e' _ callee hbody hconstructs =>
    rcases h.complete front e' back hbody with ⟨site, hsite, hat⟩ | hnone
    · cases hat with
      | call target hpc hcall htarget _ _ => exact (hconstructs.not_isCall hcall).elim
      | constructor newPc name' _ hconstructs' hsome =>
        obtain ⟨rfl, _⟩ := hconstructs.unique hconstructs'
        exact ⟨site, hsite, name', hsome⟩
    · exact absurd hconstructs (hnone.constructor e.1 name callee)

end Sites
end Body

end ClassLoom.Redirection
