import ClassLoom.ConstantPool
import ClassLoom.Proofs.Computation

/-!
# Pools only grow

A pool that has `Grown` from another one has the same slots in front. Whatever was found in the
old pool is found in the new one, and every computation that only interns `Appends`.

* `Grown.getMember`: references that were found stay;
* `Appends.bind`: computations that append, one behind the other.
-/

namespace ClassLoom

namespace ConstantPool

/-- Whether a pool has come from another one by appending slots. -/
def Grown (old new : ConstantPool) : Prop := old.slots.toList <+: new.slots.toList

/-! ## What a later pool answers

All look-ups go through slots, and slots stay where they are. For each look-up there is an equation
that says when it succeeds, and from it that a later pool answers the same. -/

theorem Grown.refl (pool : ConstantPool) : Grown pool pool := List.prefix_refl _

theorem Grown.trans {a b c : ConstantPool} (hab : Grown a b) (hbc : Grown b c) : Grown a c :=
  List.IsPrefix.trans hab hbc

theorem Grown.size_le {old new : ConstantPool} (h : Grown old new) : old.size ≤ new.size := by
  have hle := List.IsPrefix.length_le h
  rwa [Array.length_toList, Array.length_toList] at hle

section Lookup

variable {old new : ConstantPool} {i : UInt16}

/-- Slots that were there are still there, under the same numbers. -/
theorem Grown.getElem? (h : Grown old new) {n : Nat} {c : Constant}
    (hc : old.slots[n]? = some c) : new.slots[n]? = some c := by
  rw [← Array.getElem?_toList] at hc ⊢
  obtain ⟨more, hmore⟩ := h
  rw [← hmore, List.getElem?_append_left (List.getElem?_eq_some_iff.1 hc).1]
  exact hc

/-- What an index stands for: the constant in its slot, which must be a usable one. A slot behind a
wide constant is none. -/
theorem get_eq_ok {pool : ConstantPool} {c : Constant} :
    pool.get i = .ok c ↔ pool.slots[i.toNat]? = some c ∧ c ≠ .unusable := by
  unfold get
  -- Three cases of the look-up: nothing there, an unusable slot, and any other constant.
  split
  · next hnone => simp [hnone]
  · next hunusable =>
    rw [hunusable]
    constructor
    · intro h
      cases h
    · rintro ⟨h, hc⟩
      cases h
      exact absurd rfl hc
  · next c' hother hc' =>
    constructor
    · intro h
      cases h
      exact ⟨hc', hother⟩
    · rw [hc']
      rintro ⟨h, _⟩
      cases h
      rfl

theorem Grown.get (h : Grown old new) {c : Constant} (hc : old.get i = .ok c) :
    new.get i = .ok c := by
  rw [get_eq_ok] at hc ⊢
  exact ⟨h.getElem? hc.1, hc.2⟩

/-- An index stands for a text if the slot has it. A slot with anything else fails. -/
theorem getUtf8_eq_ok {pool : ConstantPool} {text : String} :
    pool.getUtf8 i = .ok text ↔ pool.get i = .ok (.utf8 text) := by
  unfold getUtf8
  rw [bind_eq_ok]
  constructor
  · rintro ⟨c, hc, h⟩
    split at h
    · cases h
      exact hc
    · cases h
  · intro h
    exact ⟨_, h, rfl⟩

theorem Grown.getUtf8 (h : Grown old new) {text : String} (htext : old.getUtf8 i = .ok text) :
    new.getUtf8 i = .ok text :=
  getUtf8_eq_ok.2 (h.get (getUtf8_eq_ok.1 htext))

/-- An index stands for a class through a second one, which stands for its name. Both look-ups have
to succeed. -/
theorem getClassName_eq_ok {pool : ConstantPool} {name : String} :
    pool.getClassName i = .ok name
      ↔ ∃ text, pool.get i = .ok (.classInfo text) ∧ pool.getUtf8 text = .ok name := by
  unfold getClassName
  rw [bind_eq_ok]
  constructor
  · rintro ⟨c, hc, h⟩
    split at h
    · exact ⟨_, hc, h⟩
    · cases h
  · rintro ⟨text, hc, h⟩
    exact ⟨_, hc, h⟩

theorem Grown.getClassName (h : Grown old new) {name : String}
    (hname : old.getClassName i = .ok name) : new.getClassName i = .ok name := by
  obtain ⟨text, hc, htext⟩ := getClassName_eq_ok.1 hname
  exact getClassName_eq_ok.2 ⟨text, h.get hc, h.getUtf8 htext⟩

/-- A name and a descriptor are two texts. Neither is checked for what it says. Both slots may come
before or behind the one that names them. -/
theorem getNameAndType_eq_ok {pool : ConstantPool} {name descriptor : String} :
    pool.getNameAndType i = .ok (name, descriptor)
      ↔ ∃ nameAt descriptorAt, pool.get i = .ok (.nameAndType nameAt descriptorAt)
        ∧ pool.getUtf8 nameAt = .ok name ∧ pool.getUtf8 descriptorAt = .ok descriptor := by
  unfold getNameAndType
  rw [bind_eq_ok]
  -- What the index names is of the right kind exactly if no mismatch is reported.
  constructor
  · rintro ⟨c, hc, h⟩
    split at h
    · obtain ⟨name', hname, h⟩ := bind_eq_ok.1 h
      obtain ⟨descriptor', hdescriptor, h⟩ := bind_eq_ok.1 h
      cases h
      exact ⟨_, _, hc, hname, hdescriptor⟩
    · cases h
  · rintro ⟨nameAt, descriptorAt, hc, hname, hdescriptor⟩
    refine ⟨_, hc, ?_⟩
    rw [bind_eq_ok]
    refine ⟨name, hname, ?_⟩
    rw [bind_eq_ok]
    exact ⟨descriptor, hdescriptor, rfl⟩

/-- Names with descriptors are read from a later pool as before. -/
theorem Grown.getNameAndType (h : Grown old new) {name descriptor : String}
    (hmember : old.getNameAndType i = .ok (name, descriptor)) :
    new.getNameAndType i = .ok (name, descriptor) := by
  obtain ⟨nameAt, descriptorAt, hc, hname, hdescriptor⟩ := getNameAndType_eq_ok.1 hmember
  exact getNameAndType_eq_ok.2
    ⟨nameAt, descriptorAt, h.get hc, h.getUtf8 hname, h.getUtf8 hdescriptor⟩

/-- The reference for the parts of a member constant. -/
def memberRef (pool : ConstantPool) (kind : MemberKind) (owner member : UInt16) :
    Except ClassError MemberRef := do
  let (name, descriptor) ← pool.getNameAndType member
  let owner ← pool.getClassName owner
  return { kind, owner, name, descriptor }

/-- What a member constant refers to is read from its parts. -/
theorem getMember_of_get {pool : ConstantPool} {kind : MemberKind} {owner member : UInt16}
    (h : pool.get i = .ok (memberConstant kind owner member)) :
    pool.getMember i = pool.memberRef kind owner member := by
  unfold getMember
  rw [h]
  cases kind <;> rfl

/-- Only member constants refer to members. -/
theorem get_of_getMember {pool : ConstantPool} {ref : MemberRef}
    (h : pool.getMember i = .ok ref) :
    ∃ kind owner member, pool.get i = .ok (memberConstant kind owner member) := by
  unfold getMember at h
  obtain ⟨c, hc, h⟩ := bind_eq_ok.1 h
  cases c with
  | field owner member => exact ⟨.field, owner, member, hc⟩
  | method owner member => exact ⟨.method, owner, member, hc⟩
  | interfaceMethod owner member => exact ⟨.interfaceMethod, owner, member, hc⟩
  | _ => cases h

/-- A reference and what its constant refers to: a class, and a name with a descriptor. Which of the
three kinds of references it is shows in the constant. -/
theorem getMember_eq_ok {pool : ConstantPool} {ref : MemberRef} :
    pool.getMember i = .ok ref ↔ ∃ owner member,
      pool.get i = .ok (memberConstant ref.kind owner member)
        ∧ pool.getNameAndType member = .ok (ref.name, ref.descriptor)
        ∧ pool.getClassName owner = .ok ref.owner := by
  constructor
  · intro h
    obtain ⟨kind, owner, member, hc⟩ := get_of_getMember h
    rw [getMember_of_get hc] at h
    obtain ⟨⟨name, descriptor⟩, hmember, h⟩ := bind_eq_ok.1 h
    obtain ⟨ownerName, howner, h⟩ := bind_eq_ok.1 h
    cases h
    exact ⟨owner, member, hc, hmember, howner⟩
  · rintro ⟨owner, member, hc, hmember, howner⟩
    rw [getMember_of_get hc]
    unfold memberRef
    rw [hmember, howner]
    rfl

/-- References are read from a later pool as before. This is what lets an instruction mean the same
after other instructions have been interned. -/
theorem Grown.getMember (h : Grown old new) {ref : MemberRef} (href : old.getMember i = .ok ref) :
    new.getMember i = .ok ref := by
  obtain ⟨owner, member, hc, hmember, howner⟩ := getMember_eq_ok.1 href
  exact getMember_eq_ok.2
    ⟨owner, member, h.get hc, h.getNameAndType hmember, h.getClassName howner⟩

end Lookup
end ConstantPool

/-! ## Computations that intern

A computation takes a pool and leaves one, also where it fails. These lemmas take one that has
succeeded apart, step by step, with a name for every pool on the way. -/

namespace Interning

section Run

variable {α β : Type} {pool pool' : ConstantPool}

/-- Two computations succeed if the first does, and the second does in the pool that the first
leaves. -/
theorem bind_eq_ok {x : Interning α} {f : α → Interning β} {b : β} :
    (x >>= f) pool = .ok b pool' ↔ ∃ a mid, x pool = .ok a mid ∧ f a mid = .ok b pool' := by
  show EStateM.bind x f pool = .ok b pool' ↔ _
  unfold EStateM.bind
  cases x pool with
  | ok a mid => simp
  | error e mid => simp

theorem pure_eq_ok {a b : α} : (pure a : Interning α) pool = .ok b pool' ↔ a = b ∧ pool = pool' := by
  show EStateM.Result.ok a pool = .ok b pool' ↔ _
  simp

/-- A computation that does not touch the pool. -/
theorem lift_eq_ok {x : Except ClassError α} {a : α} :
    (liftM x : Interning α) pool = .ok a pool' ↔ x = .ok a ∧ pool = pool' := by
  cases x with
  | ok b =>
    show EStateM.Result.ok b pool = .ok a pool' ↔ _
    simp
  | error e =>
    show EStateM.Result.error e pool = .ok a pool' ↔ _
    simp

/-- The same with another computation behind it. -/
theorem lift_bind_eq_ok {x : Except ClassError α} {f : α → Interning β} {b : β} :
    ((liftM x : Interning α) >>= f) pool = .ok b pool'
      ↔ ∃ a, x = .ok a ∧ f a pool = .ok b pool' := by
  rw [bind_eq_ok]
  constructor
  · rintro ⟨a, mid, hlift, h⟩
    obtain ⟨hx, rfl⟩ := lift_eq_ok.1 hlift
    exact ⟨a, hx, h⟩
  · rintro ⟨a, hx, h⟩
    exact ⟨a, pool, lift_eq_ok.2 ⟨hx, rfl⟩, h⟩

theorem get_bind_eq_ok {f : ConstantPool → Interning β} {b : β} :
    ((get : Interning ConstantPool) >>= f) pool = .ok b pool' ↔ f pool pool = .ok b pool' :=
  Iff.rfl

/-- What a traversal gives comes from one of its items. It was made in one of the pools in
between. -/
theorem exists_of_mem_mapM {f : α → Interning β} {xs : List α} {ys : List β}
    (h : xs.mapM f pool = .ok ys pool') {y : β} (hy : y ∈ ys) :
    ∃ x ∈ xs, ∃ before after, f x before = .ok y after := by
  induction xs generalizing pool ys with
  | nil =>
    rw [List.mapM_nil] at h
    obtain ⟨rfl, rfl⟩ := pure_eq_ok.1 h
    cases hy
  | cons x xs ih =>
    rw [List.mapM_cons] at h
    obtain ⟨first, mid, hfirst, h⟩ := bind_eq_ok.1 h
    obtain ⟨rest, mid', hrest, hend⟩ := bind_eq_ok.1 h
    obtain ⟨rfl, rfl⟩ := pure_eq_ok.1 hend
    rcases List.mem_cons.1 hy with rfl | hy
    · exact ⟨x, List.mem_cons_self .., pool, mid, hfirst⟩
    · obtain ⟨x', hx', hrun⟩ := ih hrest hy
      exact ⟨x', List.mem_cons_of_mem _ hx', hrun⟩

/-- What a caller gets who goes on with the pool only after a success. -/
theorem on_eq_ok {x : Interning α} {a : α} :
    x.on pool = .ok (a, pool') ↔ x pool = .ok a pool' := by
  unfold on
  cases x pool with
  | ok b mid => simp
  | error e mid => simp

end Run
end Interning
end ClassLoom
