import ClassLoom.Proofs.Typing.Receivers
import ClassLoom.Proofs.Weave.Declared

/-!
# Constructed objects

Redirecting pairs a constructor call with a `new` by the order of the body. Which object the call
is made on is known to the type checker. Both agree where objects are constructed latest first
(`LatestFirst`): then the constructor calls on objects of replaced classes are rewritten, with the
`new` of the object, and no other ones are.

* `waitingBehind_eq`: what waits for a constructor call are the objects under construction;
* `followsObjects_of_becomes`: what becomes of constructor calls and of `new` instructions;
* `redirectMethod_follows_objects`: the method that redirecting leaves.
-/

namespace ClassLoom

namespace Redirection

open Typing (SlotType)

/-! ## Objects under construction

Redirecting keeps the `new` instructions that wait for their constructor calls on a stack, and takes
the latest of the right class. That is the right one in bodies that construct objects latest first,
which is said here by the objects themselves: the receivers come from the states that a body is
checked with. -/

section Objects

variable (pool : ConstantPool) (receiver : Nat × Instruction → Option SlotType)

/-- Whether an instruction is a constructor call on the object of the `new` at an offset. -/
def constructsObject (newPc : Nat) (e : Nat × Instruction) : Bool :=
  (constructor? pool e.2).isSome && receiver e = some (.uninitialized newPc)

/-- The `new` instructions among some, latest first, with their classes. -/
def madeObjects (front : List (Nat × Instruction)) : List (Nat × String) :=
  (front.filterMap fun e => (made? pool e.2).map (e.1, ·)).reverse

/-- The objects that are under construction behind some instructions, latest first: those on which
none of them is a constructor call. -/
def underConstruction (front : List (Nat × Instruction)) : List (Nat × String) :=
  (madeObjects pool front).filter fun object =>
    !front.any (constructsObject pool receiver object.1)

/-- Whether an instruction may come behind some others, as objects are constructed latest first: a
constructor call on a new object is one on the latest under construction, and names its class; and
another one, on the receiver of the method itself, does not name that class. -/
def hasTurn (front : List (Nat × Instruction)) (e : Nat × Instruction) : Bool :=
  match constructor? pool e.2, receiver e with
  | none, _ => true
  | some target, some (.uninitialized newPc) =>
    (underConstruction pool receiver front).head? = some (newPc, target.owner)
  | some target, _ =>
    (underConstruction pool receiver front).head?.map (·.2) ≠ some target.owner

/-- Whether a body constructs objects latest first. -/
def LatestFirst (body : List (Nat × Instruction)) : Prop :=
  ∀ k (h : k < body.length), hasTurn pool receiver (body.take k) body[k] = true

instance (body : List (Nat × Instruction)) : Decidable (LatestFirst pool receiver body) :=
  inferInstanceAs (Decidable (∀ k (_ : k < body.length),
    hasTurn pool receiver (body.take k) body[k] = true))

end Objects

section LatestFirst

variable {pool : ConstantPool} {receiver : Nat × Instruction → Option SlotType}
  {front back body : List (Nat × Instruction)} {e : Nat × Instruction} {target : MemberRef}
  {newPc : Nat}

/-- If it is the turn of a constructor call on a new object, that object is the latest under
construction. -/
theorem head_of_hasTurn (h : hasTurn pool receiver front e = true)
    (htarget : constructor? pool e.2 = some target)
    (hobject : receiver e = some (.uninitialized newPc)) :
    ∃ rest, underConstruction pool receiver front = (newPc, target.owner) :: rest := by
  unfold hasTurn at h
  rw [htarget, hobject] at h
  have hhead := of_decide_eq_true h
  exact List.head?_eq_some_iff.1 hhead

/-- If it is the turn of a constructor call on something else, the latest object under construction
is of another class, or there is none. -/
theorem head_ne_of_hasTurn (h : hasTurn pool receiver front e = true)
    (htarget : constructor? pool e.2 = some target)
    (hother : ∀ newPc, receiver e ≠ some (.uninitialized newPc)) (newPc : Nat)
    (rest : List (Nat × String)) :
    underConstruction pool receiver front ≠ (newPc, target.owner) :: rest := by
  intro hhead
  unfold hasTurn at h
  rw [htarget] at h
  split at h
  · next habsurd => cases habsurd
  · next newPc' _ hobject => exact hother newPc' hobject
  · next target' htarget' _ =>
    cases htarget'
    rw [hhead] at h
    simp at h

/-- In a body that constructs objects latest first, each instruction has its turn. -/
theorem LatestFirst.at_split (h : LatestFirst pool receiver body)
    (hbody : body = front ++ e :: back) : hasTurn pool receiver front e = true := by
  subst hbody
  have hturn := h front.length (by simp)
  rwa [List.take_left, List.getElem_append_right (Nat.le_refl _), List.getElem_cons,
    dif_pos (Nat.sub_self _)] at hturn

/-- The objects made by some instructions are at offsets of these, latest first. So no object is
listed twice. -/
theorem map_madeObjects_sublist (pool : ConstantPool) (front : List (Nat × Instruction)) :
    ((madeObjects pool front).map (·.1)).Sublist (front.map (·.1)).reverse := by
  unfold madeObjects
  rw [List.map_reverse]
  refine List.Sublist.reverse ?_
  induction front with
  | nil => exact List.Sublist.refl _
  | cons e front ih =>
    -- An instruction that makes nothing is left out, which is what a sublist allows.
    cases hmade : made? pool e.2 with
    | none =>
      rw [List.filterMap_cons_none (by rw [hmade]; rfl)]
      exact ih.trans (List.sublist_cons_self ..)
    | some name =>
      rw [List.filterMap_cons_some (by rw [hmade]; rfl)]
      exact ih.cons_cons e.1

/-- An object that is made has its `new`, which tells the class. -/
theorem mem_madeObjects {object : Nat × String} (h : object ∈ madeObjects pool front) :
    ∃ i, (object.1, i) ∈ front ∧ made? pool i = some object.2 := by
  obtain ⟨e, he, hobject⟩ := List.mem_filterMap.1 (List.mem_reverse.1 h)
  obtain ⟨name, hname, rfl⟩ := Option.map_eq_some_iff.1 hobject
  exact ⟨e.2, he, hname⟩

/-- The `new` of an object under construction. -/
theorem exists_new_of_head {owner : String} {rest : List (Nat × String)}
    (hhead : underConstruction pool receiver front = (newPc, owner) :: rest) :
    ∃ i, (newPc, i) ∈ front ∧ made? pool i = some owner := by
  have hmem : (newPc, owner) ∈ underConstruction pool receiver front :=
    hhead ▸ List.mem_cons_self ..
  exact mem_madeObjects (List.mem_filter.1 hmem).1

/-- One more instruction makes at most one more object, which is the latest. Objects are listed
latest first, as they wait for their constructors. -/
theorem madeObjects_concat (front : List (Nat × Instruction)) (e : Nat × Instruction) :
    madeObjects pool (front ++ [e])
      = ((made? pool e.2).map (e.1, ·)).toList ++ madeObjects pool front := by
  unfold madeObjects
  rw [List.filterMap_append, List.reverse_append]
  cases hmade : made? pool e.2 with
  | none =>
    rw [List.filterMap_cons_none (by rw [hmade]; rfl)]
    rfl
  | some name =>
    rw [List.filterMap_cons_some (by rw [hmade]; rfl)]
    rfl

theorem pc_lt_of_mem (hpcs : (body.map (·.1)).Pairwise (· < ·)) (hbody : body = front ++ e :: back)
    {e' : Nat × Instruction} (he' : e' ∈ front) : e'.1 < e.1 := by
  rw [hbody, List.map_append, List.pairwise_append] at hpcs
  exact hpcs.2.2 e'.1 (List.mem_map_of_mem he') e.1 (List.mem_cons_self ..)

/-- What is constructed has been made before: a constructor call comes behind the `new` of its
object. -/
theorem LatestFirst.pc_lt_of_constructsObject (h : LatestFirst pool receiver body)
    (hpcs : (body.map (·.1)).Pairwise (· < ·)) (he : e ∈ body)
    (hconstructs : constructsObject pool receiver newPc e = true) : newPc < e.1 := by
  obtain ⟨front, back, hbody⟩ := List.append_of_mem he
  obtain ⟨hconstructor, hobject⟩ := Bool.and_eq_true_iff.1 hconstructs
  obtain ⟨target, htarget⟩ := Option.isSome_iff_exists.1 hconstructor
  obtain ⟨rest, hhead⟩ := head_of_hasTurn (h.at_split hbody) htarget (of_decide_eq_true hobject)
  obtain ⟨i, hi, _⟩ := exists_new_of_head hhead
  exact pc_lt_of_mem hpcs hbody hi

/-- A new object comes under construction, if no constructor has been called on it before. That
cannot have happened, but the definition does not know of it. -/
theorem underConstruction_concat_made {name : String} (hmade : made? pool e.2 = some name)
    (hbefore : front.any (constructsObject pool receiver e.1) = false) :
    underConstruction pool receiver (front ++ [e])
      = (e.1, name) :: underConstruction pool receiver front := by
  have hnone : constructor? pool e.2 = none :=
    constructor?_of_ne (by rw [opcode_of_made? hmade]; decide)
  have hnever (newPc : Nat) : (front ++ [e]).any (constructsObject pool receiver newPc)
      = front.any (constructsObject pool receiver newPc) := by
    simp [constructsObject, hnone]
  unfold underConstruction
  simp only [hnever]
  rw [madeObjects_concat, hmade]
  exact List.filter_cons_of_pos (by simp [hbefore])

/-- Other instructions than constructor calls on new objects leave what is under construction. -/
theorem underConstruction_concat_other (hmade : made? pool e.2 = none)
    (hother : ∀ newPc, constructsObject pool receiver newPc e = false) :
    underConstruction pool receiver (front ++ [e]) = underConstruction pool receiver front := by
  have hnever (newPc : Nat) : (front ++ [e]).any (constructsObject pool receiver newPc)
      = front.any (constructsObject pool receiver newPc) := by
    simp [hother]
  unfold underConstruction
  simp only [hnever]
  rw [madeObjects_concat, hmade]
  rfl

/-- A constructor call on the latest object leaves the ones before it. Offsets tell objects
apart. -/
theorem underConstruction_concat_constructs {owner : String} {rest : List (Nat × String)}
    (hpcs : (front.map (·.1)).Nodup) (htarget : constructor? pool e.2 = some target)
    (hobject : receiver e = some (.uninitialized newPc))
    (hhead : underConstruction pool receiver front = (newPc, owner) :: rest) :
    underConstruction pool receiver (front ++ [e]) = rest := by
  have hmade : made? pool e.2 = none :=
    made?_of_ne (by rw [opcode_of_constructor? (by rw [htarget]; rfl)]; decide)
  have hconstructs (object : Nat) :
      constructsObject pool receiver object e = decide (newPc = object) := by
    simp [constructsObject, htarget, hobject]
  have hsplit : underConstruction pool receiver (front ++ [e])
      = (underConstruction pool receiver front).filter fun object => object.1 ≠ newPc := by
    unfold underConstruction
    rw [madeObjects_concat, hmade, List.filter_filter]
    refine List.filter_congr fun object _ => ?_
    simp [hconstructs, Bool.and_comm, eq_comm]
  -- No other object has the offset.
  have hnodup : ((underConstruction pool receiver front).map (·.1)).Nodup :=
    (List.nodup_reverse.2 hpcs).sublist
      ((List.filter_sublist.map _).trans (map_madeObjects_sublist pool front))
  rw [hhead, List.map_cons, List.nodup_cons] at hnodup
  rw [hsplit, hhead, List.filter_cons_of_neg (by simp), List.filter_eq_self]
  intro object hmem
  have hne : object.1 ≠ newPc := by
    rintro rfl
    exact hnodup.1 (List.mem_map.2 ⟨object, hmem, rfl⟩)
  simpa using hne

/-- **What waits for a constructor call are the objects under construction**, in a body that
constructs objects latest first. -/
theorem waitingBehind_eq (hpcs : (body.map (·.1)).Pairwise (· < ·))
    (h : LatestFirst pool receiver body) (hbody : body = front ++ back) :
    waitingBehind pool front = underConstruction pool receiver front := by
  induction front using List.reverseRecOn generalizing back with
  | nil => rfl
  | append_singleton front e ih =>
    have hsplit : body = front ++ e :: back := by
      rw [hbody, List.append_assoc]
      rfl
    have hturn := h.at_split hsplit
    rw [waitingBehind_concat, ih hsplit]
    cases hmade : made? pool e.2 with
    | some name =>
      -- A `new`: no constructor has been called on its object, since that would come later.
      have hbefore : front.any (constructsObject pool receiver e.1) = false := by
        refine List.any_eq_false.2 fun e' he' hconstructs => ?_
        have hlater := pc_lt_of_mem hpcs hsplit he'
        have he' : e' ∈ body := hsplit ▸ List.mem_append_left _ he'
        have hearlier := h.pc_lt_of_constructsObject hpcs he' hconstructs
        omega
      rw [underConstruction_concat_made hmade hbefore]
      simp only [waitOn, hmade]
    | none =>
      cases htarget : constructor? pool e.2 with
      | none =>
        -- Neither a `new` nor a constructor call: both sides stay.
        rw [underConstruction_concat_other hmade fun _ => by simp [constructsObject, htarget]]
        simp only [waitOn, hmade, htarget]
      | some target =>
        by_cases hobject : ∃ newPc, receiver e = some (.uninitialized newPc)
        · -- A constructor call on a new object: its turn makes that object the latest.
          obtain ⟨newPc, hobject⟩ := hobject
          obtain ⟨rest, hhead⟩ := head_of_hasTurn hturn htarget hobject
          have hfront : (front.map (·.1)).Nodup := by
            rw [hsplit, List.map_append, List.pairwise_append] at hpcs
            exact hpcs.1.imp Nat.ne_of_lt
          rw [underConstruction_concat_constructs hfront htarget hobject hhead, hhead]
          simp only [waitOn, hmade, htarget, if_true]
        · -- A constructor call on the receiver of the method: its turn says that the latest object
          -- is of another class, so that nothing is taken.
          have hother : ∀ newPc, receiver e ≠ some (.uninitialized newPc) :=
            fun newPc hsome => hobject ⟨newPc, hsome⟩
          have hne := head_ne_of_hasTurn hturn htarget hother
          rw [underConstruction_concat_other hmade fun newPc => by
            simp [constructsObject, hother newPc]]
          generalize underConstruction pool receiver front = open' at hne ⊢
          cases open' with
          | nil => simp only [waitOn, hmade, htarget]
          | cons object rest =>
            obtain ⟨newPc, owner⟩ := object
            have howner : owner ≠ target.owner := by
              rintro rfl
              exact hne newPc rest rfl
            simp only [waitOn, hmade, htarget, if_neg howner]

end LatestFirst

/-! ## Constructor calls and their objects

In a body that constructs its latest object first, the object that the planning takes is the one
that the operand stack has. -/

/-- Whether constructor calls go with the objects that they are made on: `became` tells what stands
for an instruction of a body. -/
structure FollowsObjects (s : Surroundings) (pool last : ConstantPool)
    (body : List (Nat × Instruction)) (receiver : Nat × Instruction → Option SlotType)
    (became : Nat × Instruction → List Instruction) : Prop where
  /-- Constructor calls on no new object stay, such as those of superclasses. -/
  own : ∀ e ∈ body, ∀ target, constructor? pool e.2 = some target →
    (∀ newPc, receiver e ≠ some (.uninitialized newPc)) → became e = [e.2]
  /-- Constructor calls on objects of replaced classes go to the replacement, and the `new` makes
  an object of it. -/
  replaced : ∀ e ∈ body, ∀ target newPc polyfill, constructor? pool e.2 = some target →
    receiver e = some (.uninitialized newPc) → s.polyfill? target.owner = some polyfill →
    polyfill.kind = .replacement →
      (∃ d, MethodDescriptor.parse target.descriptor = .ok d
        ∧ Emits last (.call (constructorCallee s polyfill d)) (became e))
      ∧ ∃ i, (newPc, i) ∈ body ∧ made? pool i = some target.owner
        ∧ Emits last (.make polyfill.name) (became (newPc, i))
  /-- Other constructor calls on new objects stay, and so does the `new`. -/
  kept : ∀ e ∈ body, ∀ target newPc, constructor? pool e.2 = some target →
    receiver e = some (.uninitialized newPc) →
    (∀ polyfill, s.polyfill? target.owner = some polyfill → polyfill.kind ≠ .replacement) →
      became e = [e.2] ∧ ∃ i, (newPc, i) ∈ body ∧ made? pool i = some target.owner
        ∧ became (newPc, i) = [i]
  /-- A `new` without a constructor call on its object stays. -/
  abandoned : ∀ e ∈ body, (made? pool e.2).isSome →
    (∀ e' ∈ body, constructsObject pool receiver e.1 e' = false) → became e = [e.2]

section FollowsObjects

variable {s : Surroundings} {pool last : ConstantPool}
  {receiver : Nat × Instruction → Option SlotType} {front back body : List (Nat × Instruction)}
  {became : Nat × Instruction → List Instruction} {e : Nat × Instruction} {target : MemberRef}
  {newPc : Nat}

/-- A constructor call that has a rule is one on the latest object under construction, which is of a
replaced class. -/
theorem LatestFirst.receiver_of_constructs (h : LatestFirst pool receiver body)
    (hpcs : (body.map (·.1)).Pairwise (· < ·)) (hbody : body = front ++ e :: back) {name : String}
    {callee : Invocation} (hconstructs : Constructs s pool (waitingBehind pool front) e.2 newPc name
      callee) : ∃ target polyfill i, constructor? pool e.2 = some target
        ∧ receiver e = some (.uninitialized newPc) ∧ (newPc, i) ∈ body
        ∧ made? pool i = some target.owner ∧ s.polyfill? target.owner = some polyfill
        ∧ polyfill.kind = .replacement := by
  cases hconstructs with
  | intro target rest polyfill d htarget hwaiting hpolyfill hkind hd =>
    rw [waitingBehind_eq hpcs h hbody] at hwaiting
    have hturn := h.at_split hbody
    obtain ⟨i, hi, hmade⟩ := exists_new_of_head hwaiting
    refine ⟨target, polyfill, i, htarget, ?_, hbody ▸ List.mem_append_left _ hi, hmade, hpolyfill,
      hkind⟩
    by_cases hobject : ∃ newPc, receiver e = some (.uninitialized newPc)
    · -- On a new object: its turn makes it the one that the rule has found waiting.
      obtain ⟨newPc', hobject⟩ := hobject
      obtain ⟨rest', hhead⟩ := head_of_hasTurn hturn htarget hobject
      rw [hhead] at hwaiting
      cases hwaiting
      exact hobject
    · -- On the receiver of the method: the rule would have found nothing of the class.
      have hother : ∀ newPc, receiver e ≠ some (.uninitialized newPc) :=
        fun newPc hsome => hobject ⟨newPc, hsome⟩
      exact absurd hwaiting (head_ne_of_hasTurn hturn htarget hother newPc rest)

/-- A constructor call on an object of a replaced class has its rule, and so has the `new`. -/
theorem LatestFirst.constructs_of_receiver (h : LatestFirst pool receiver body)
    (hpcs : (body.map (·.1)).Pairwise (· < ·)) (hbody : body = front ++ e :: back)
    (htarget : constructor? pool e.2 = some target)
    (hobject : receiver e = some (.uninitialized newPc)) {polyfill : Polyfill}
    (hpolyfill : s.polyfill? target.owner = some polyfill) (hkind : polyfill.kind = .replacement)
    {d : MethodDescriptor} (hd : MethodDescriptor.parse target.descriptor = .ok d) :
    Constructs s pool (waitingBehind pool front) e.2 newPc polyfill.name
      (constructorCallee s polyfill d) := by
  obtain ⟨rest, hhead⟩ := head_of_hasTurn (h.at_split hbody) htarget hobject
  rw [← waitingBehind_eq hpcs h hbody] at hhead
  exact .intro target rest polyfill d htarget hhead hpolyfill hkind hd

/-- The `new` of the object that a constructor is called on. -/
theorem LatestFirst.exists_new (h : LatestFirst pool receiver body) (he : e ∈ body)
    (htarget : constructor? pool e.2 = some target)
    (hobject : receiver e = some (.uninitialized newPc)) :
    ∃ i, (newPc, i) ∈ body ∧ made? pool i = some target.owner := by
  obtain ⟨front, back, hbody⟩ := List.append_of_mem he
  obtain ⟨rest, hhead⟩ := head_of_hasTurn (h.at_split hbody) htarget hobject
  obtain ⟨i, hi, hmade⟩ := exists_new_of_head hhead
  exact ⟨i, hbody ▸ List.mem_append_left _ hi, hmade⟩

/-- A constructor call that is rewritten is one on an object of a replaced class. A call of a
constructor on the receiver of the method is never rewritten then. -/
theorem LatestFirst.receiver_of_rewrite (h : LatestFirst pool receiver body)
    (hpcs : (body.map (·.1)).Pairwise (· < ·)) (he : e ∈ body)
    (htarget : constructor? pool e.2 = some target) {r : Rewriting}
    (hrewrite : Rewrite s pool body e r) : ∃ newPc polyfill,
      receiver e = some (.uninitialized newPc) ∧ s.polyfill? target.owner = some polyfill
        ∧ polyfill.kind = .replacement := by
  have hop := opcode_of_constructor? (by rw [htarget]; rfl)
  -- A rule for another opcode does not apply to a constructor call.
  cases hrewrite with
  | call target' callee hcall =>
    rw [isCall_eq_false (.inr hop)] at hcall
    cases hcall
  | construct front back newPc name callee hbody hconstructs =>
    obtain ⟨target', polyfill, _, htarget', hobject, _, _, hpolyfill, hkind⟩ :=
      h.receiver_of_constructs hpcs hbody hconstructs
    rw [htarget] at htarget'
    cases htarget'
    exact ⟨newPc, polyfill, hobject, hpolyfill, hkind⟩
  | make front back e' name callee hbody hconstructs =>
    obtain ⟨owner, hmade⟩ :=
      made?_of_rewrite_make hpcs he (.make front back e' name callee hbody hconstructs)
    rw [opcode_of_made? hmade] at hop
    cases hop

/-- A `new` that is rewritten makes an object of a replaced class, on which a constructor is
called. -/
theorem LatestFirst.exists_constructs_of_rewrite (h : LatestFirst pool receiver body)
    (hpcs : (body.map (·.1)).Pairwise (· < ·)) (he : e ∈ body) {owner : String}
    (hmade : made? pool e.2 = some owner) {r : Rewriting} (hrewrite : Rewrite s pool body e r) :
    ∃ e' ∈ body, constructsObject pool receiver e.1 e' = true
      ∧ ∃ polyfill, s.polyfill? owner = some polyfill ∧ polyfill.kind = .replacement := by
  have hop := opcode_of_made? hmade
  cases hrewrite with
  | call target callee hcall =>
    rw [isCall_eq_false (.inl hop)] at hcall
    cases hcall
  | construct front back newPc name callee hbody hconstructs =>
    obtain ⟨target, _, _, htarget, _⟩ := h.receiver_of_constructs hpcs hbody hconstructs
    rw [opcode_of_constructor? (by rw [htarget]; rfl)] at hop
    cases hop
  -- The rule of the call names the object, and offsets tell which instruction made it.
  | make front back e' name callee hbody hconstructs =>
    obtain ⟨target, polyfill, i, htarget, hobject, hi, hmade', hpolyfill, hkind⟩ :=
      h.receiver_of_constructs hpcs hbody hconstructs
    have hsame : e = (e.1, i) := eq_of_pc_eq hpcs he hi rfl
    rw [hsame, hmade'] at hmade
    cases hmade
    refine ⟨e', hbody ▸ List.mem_append_right _ (List.mem_cons_self ..), ?_, polyfill, hpolyfill,
      hkind⟩
    simp [constructsObject, htarget, hobject]

/-- **Constructor calls go with their objects** in a body that constructs objects latest first. Each
of the four cases is about who the receiver is. -/
theorem followsObjects_of_becomes (hpcs : (body.map (·.1)).Pairwise (· < ·))
    (h : LatestFirst pool receiver body)
    (hparses : ∀ e ∈ body, ∀ target newPc, constructor? pool e.2 = some target →
      receiver e = some (.uninitialized newPc) →
        ∃ d, MethodDescriptor.parse target.descriptor = .ok d)
    (hbecomes : ∀ e ∈ body, Becomes s pool last body e (became e)) :
    FollowsObjects s pool last body receiver became where
  own e he target htarget hother := by
    refine (hbecomes e he).kept fun r hrewrite => ?_
    obtain ⟨newPc, _, hobject, _⟩ := h.receiver_of_rewrite hpcs he htarget hrewrite
    exact hother newPc hobject
  replaced e he target newPc polyfill htarget hobject hpolyfill hkind := by
    obtain ⟨d, hd⟩ := hparses e he target newPc htarget hobject
    obtain ⟨i, hi, hmade⟩ := h.exists_new he htarget hobject
    obtain ⟨front, back, hbody⟩ := List.append_of_mem he
    have hconstructs :=
      h.constructs_of_receiver hpcs hbody htarget hobject hpolyfill hkind hd
    refine ⟨⟨d, hd, ?_⟩, i, hi, hmade, ?_⟩
    · exact (hbecomes e he).rewritten _ (.construct front back newPc _ _ hbody hconstructs)
    · exact (hbecomes (newPc, i) hi).rewritten _ (.make front back e _ _ hbody hconstructs)
  kept e he target newPc htarget hobject hnone := by
    obtain ⟨i, hi, hmade⟩ := h.exists_new he htarget hobject
    refine ⟨(hbecomes e he).kept fun r hrewrite => ?_, i, hi, hmade,
      (hbecomes (newPc, i) hi).kept fun r hrewrite => ?_⟩
    · obtain ⟨_, polyfill, _, hpolyfill, hkind⟩ := h.receiver_of_rewrite hpcs he htarget hrewrite
      exact hnone polyfill hpolyfill hkind
    · obtain ⟨_, _, _, polyfill, hpolyfill, hkind⟩ :=
        h.exists_constructs_of_rewrite hpcs hi hmade hrewrite
      exact hnone polyfill hpolyfill hkind
  -- An object that is never constructed is left, since a rule for it would be a call that
  -- constructs it.
  abandoned e he hmade hnever := by
    obtain ⟨owner, hmade⟩ := Option.isSome_iff_exists.1 hmade
    refine (hbecomes e he).kept fun r hrewrite => ?_
    obtain ⟨e', he', hconstructs, _⟩ := h.exists_constructs_of_rewrite hpcs he hmade hrewrite
    rw [hnever e' he'] at hconstructs
    cases hconstructs

end FollowsObjects
end Redirection

namespace Weave

open ConstantPool
open Redirection

/-- Placing an instruction where it is. -/
theorem relocated_id (i : Instruction) : Instruction.Relocated id i i := by
  have hplaced : i.placed id false = i := by
    cases i <;> simp [Instruction.placed]
  have hsame := Instruction.Relocated.same (f := id) i
  rwa [hplaced] at hsame

/-- **Redirected methods construct objects of the classes that they make.** In a body that checks
against some frames and constructs objects latest first, the `new` and the constructor call of
each object go to a replacement together, or both stay; and constructor calls that are not on new
objects stay. -/
theorem redirectMethod_follows_objects {s : Surroundings} {className : String} {m m' : Member}
    {diagnostics : List Diagnostic} {pool last : ConstantPool} {code : Code}
    {body : List (Nat × Instruction)} (hpool : Reachable pool)
    (h : redirectMethod s className m pool = .ok (m', diagnostics) last)
    (hcode : m.code? pool = .ok (some code)) (hdecode : Instruction.decode code.bytecode = .ok body)
    {setting : Typing.Setting} (hsetting : setting.pool = pool) {table : Typing.FrameTable}
    {start : Typing.MachineState}
    (hchecked : Typing.Pass.Checked setting code.handlers table (some start) body)
    (hlatest : LatestFirst pool (Typing.Pass.receiver? setting table start body) body) :
    ∃ code' moved became newOffset, m'.code? last = .ok (some code')
      ∧ Instruction.decode code'.bytecode = .ok moved
      ∧ List.Forall₂ (Instruction.Relocated newOffset) (body.flatMap became) (moved.map (·.2))
      ∧ FollowsObjects s pool last body (Typing.Pass.receiver? setting table start body)
        became := by
  have hpcs := (Instruction.consecutive_of_decode hdecode).pairwise
    (Instruction.wellFormed_of_decode hdecode)
  have hparses : ∀ e ∈ body, ∀ target newPc, constructor? pool e.2 = some target →
      Typing.Pass.receiver? setting table start body e = some (.uninitialized newPc) →
        ∃ d, MethodDescriptor.parse target.descriptor = .ok d := by
    intro e he target newPc htarget hobject
    rcases Typing.Pass.receiver?_cases hchecked hpcs he (hsetting.symm ▸ htarget) with
      ⟨_, hnone⟩ | ⟨hd, _⟩
    · rw [hnone] at hobject
      cases hobject
    · exact hd
  have houtcome := outcome_of_redirectMethod hpool h (Grown.refl last)
  have hgrown := (appends_redirectMethod s className m).grown_of_ok h
  generalize hresult : (m', diagnostics) = result at houtcome
  cases houtcome with
  | bodiless hnone =>
    rw [hcode] at hnone
    cases hnone
  | untouched code' body' hcode' hdecode' _ hnone =>
    rw [hcode] at hcode'
    cases hcode'
    rw [hdecode] at hdecode'
    cases hdecode'
    cases hresult
    -- Nothing has a rule: the body is the one that there was.
    refine ⟨code, body, fun e => [e.2], id, Member.code?_grown hgrown hcode, hdecode, ?_, ?_⟩
    · rw [← List.map_eq_flatMap]
      exact List.forall₂_same.2 fun i _ => relocated_id i
    · exact followsObjects_of_becomes hpcs hlatest hparses fun e he =>
        ⟨fun r hrewrite => absurd hrewrite (hnone e he r), fun _ => rfl⟩
  | redirected code₀ code' body₀ moved became newOffset info hcode₀ hdecode₀ _ _ hcode' hmoved
      hbody =>
    rw [hcode] at hcode₀
    cases hcode₀
    rw [hdecode] at hdecode₀
    cases hdecode₀
    cases hresult
    exact ⟨code', moved, became, newOffset, hcode', hmoved, hbody.instructions,
      followsObjects_of_becomes hpcs hlatest hparses hbody.becomes⟩
  | failed e hfailed =>
    rw [Interning.on_eq_ok.2 h] at hfailed
    cases hfailed

/-- A class `A` that extends `X`, with a constructor that calls the one of `X`, and makes another
`X` then. -/
def superThenX : Bytes :=
  [202, 254, 186, 190, 0, 0, 0, 50, 0, 10, 1, 0, 1, 65, 7, 0, 1, 1, 0, 1, 88, 7, 0, 3, 1, 0,
   6, 60, 105, 110, 105, 116, 62, 1, 0, 3, 40, 41, 86, 12, 0, 5, 0, 6, 10, 0, 4, 0, 7, 1, 0,
   4, 67, 111, 100, 101, 0, 33, 0, 2, 0, 4, 0, 0, 0, 0, 0, 1, 0, 1, 0, 5, 0, 6, 0, 1, 0, 9, 0,
   0, 0, 25, 0, 3, 0, 1, 0, 0, 0, 13, 42, 183, 0, 8, 187, 0, 4, 89, 183, 0, 8, 87, 177, 0, 0,
   0, 0, 0, 0]

/-- The call of the constructor of `X` on the receiver stays, and the one on the new object goes
to the polyfill. -/
theorem redirectMethod_follows_objects_super : ∃ c m code body m' diagnostics last,
    ClassFile.parse superThenX = .ok c ∧ m ∈ c.methods ∧ m.code? c.pool = .ok (some code)
      ∧ Instruction.decode code.bytecode = .ok body
      ∧ redirectMethod replacedX c.name m c.pool = .ok (m', diagnostics) last ∧ m' ≠ m
      ∧ let method : Typing.EnclosingMethod :=
          { owner := c.name, name := m.name, descriptor := m.descriptor, isStatic := m.isStatic }
        let setting : Typing.Setting :=
          { hierarchy := replacedX.scope.hierarchy, pool := c.pool, method }
        let start : Typing.MachineState := { locals := [.uninitializedThis], stack := [] }
        let receiver := Typing.Pass.receiver? setting [] start body
        (∃ e ∈ body, (constructor? c.pool e.2).isSome ∧ receiver e = some .uninitializedThis)
        ∧ (∃ e ∈ body, constructsObject c.pool receiver 4 e = true)
        ∧ ∃ code' moved became newOffset, m'.code? last = .ok (some code')
          ∧ Instruction.decode code'.bytecode = .ok moved
          ∧ List.Forall₂ (Instruction.Relocated newOffset) (body.flatMap became) (moved.map (·.2))
          ∧ FollowsObjects replacedX c.pool last body receiver became := by
  have hevaluated : (do
      let c ← (ClassFile.parse superThenX).toOption
      let m ← c.methods.head?
      let found ← (m.code? c.pool).toOption
      let code ← found
      let body ← (Instruction.decode code.bytecode).toOption
      let redirected ← ((redirectMethod replacedX c.name m).on c.pool).toOption
      let method : Typing.EnclosingMethod :=
        { owner := c.name, name := m.name, descriptor := m.descriptor, isStatic := m.isStatic }
      let setting : Typing.Setting :=
        { hierarchy := replacedX.scope.hierarchy, pool := c.pool, method }
      let start : Typing.MachineState := { locals := [.uninitializedThis], stack := [] }
      let receiver := Typing.Pass.receiver? setting [] start body
      let table ← (Typing.Pass.run setting code.handlers body start []).toOption
      return decide (redirected.1.1 ≠ m ∧ table = [] ∧ LatestFirst c.pool receiver body
        ∧ (∃ e ∈ body, (constructor? c.pool e.2).isSome ∧ receiver e = some .uninitializedThis)
        ∧ (∃ e ∈ body, constructsObject c.pool receiver 4 e = true))) = some true := by
    decide +kernel
  obtain ⟨c, hparse, hmethods⟩ := toOption_bind_eq_some.1 hevaluated
  obtain ⟨m, hm, hcodes⟩ := Option.bind_eq_some_iff.1 hmethods
  obtain ⟨found, hcode, hfound⟩ := toOption_bind_eq_some.1 hcodes
  obtain ⟨code, rfl, hbody⟩ := Option.bind_eq_some_iff.1 hfound
  obtain ⟨body, hdecode, hresult⟩ := toOption_bind_eq_some.1 hbody
  obtain ⟨⟨⟨m', diagnostics⟩, last⟩, hredirect, htable⟩ := toOption_bind_eq_some.1 hresult
  obtain ⟨table, hrun, hchecked⟩ := toOption_bind_eq_some.1 htable
  obtain ⟨hnew, rfl, hlatest, hown, hobject⟩ := of_decide_eq_true (Option.some.inj hchecked)
  have hredirect := Interning.on_eq_ok.1 hredirect
  -- The body has no frames, so a pass over it changes nothing.
  have hnodup : (([] : Typing.FrameTable).map (·.1)).Nodup := List.nodup_nil
  exact ⟨c, m, code, body, m', diagnostics, last, hparse, List.mem_of_head? hm, hcode, hdecode,
    hredirect, hnew, hown, hobject, redirectMethod_follows_objects (reachable_of_parse hparse)
      hredirect hcode hdecode rfl ((Typing.Pass.run_eq_self_iff hnodup).1 hrun) hlatest⟩

end Weave
end ClassLoom
