import ClassLoom.ConstantPool.Format
import ClassLoom.Proofs.ConstantPool.Growth
import ClassLoom.Proofs.ConstantPool.Order

/-!
# Consistent pools

The index of a pool is redundant: it finds every constant at the first slot that holds it
(`ConstantPool.Consistent`). Pools that are read or made by interning are consistent, and what
is interned in one is found again under the index that it got.

* `Reachable.consistent`: all pools that there are;
* `Consistent.located`: what is left of that for pools in which unusable slots are interned too.
-/

namespace ClassLoom

namespace ConstantPool

/-! ## The invariant

A pool has its slots and an index that finds constants in them. `Consistent` ties the two together:
the index leads to the first slot of each constant. A pool that is read may have a constant twice,
so it matters that it is the first one. -/

/-- Whether `n` is the first slot of a constant. -/
def FirstAt (pool : ConstantPool) (c : Constant) (n : Nat) : Prop :=
  pool.slots[n]? = some c ∧ ∀ m < n, pool.slots[m]? ≠ some c

/-- The index of the pool finds the first slot of every constant, and nothing else; all slots
have 16-bit numbers. -/
structure Consistent (pool : ConstantPool) : Prop where
  size_le : pool.size ≤ 65535
  index_iff : ∀ c i, pool.index[c]? = some i ↔ c ≠ .unusable ∧ pool.FirstAt c i.toNat

/-- Whether the index of the pool leads to slots that hold what is looked for. Unlike consistency
this does not end when an unusable slot is interned. -/
def Located (pool : ConstantPool) : Prop :=
  ∀ (c : Constant) (i : UInt16), pool.index[c]? = some i → pool.slots[i.toNat]? = some c

theorem Consistent.located {pool : ConstantPool} (h : pool.Consistent) : pool.Located :=
  fun c i hi => ((h.index_iff c i).1 hi).2.1

section FirstAt

variable {pool : ConstantPool} {c : Constant}

/-- A constant has one first slot. -/
theorem FirstAt.unique {m n : Nat} (hm : pool.FirstAt c m) (hn : pool.FirstAt c n) : m = n := by
  rcases Nat.lt_trichotomy m n with h | h | h
  · exact absurd hm.1 (hn.2 m h)
  · exact h
  · exact absurd hn.1 (hm.2 n h)

/-- A constant that is in some slot is in a first one. -/
theorem exists_firstAt {n : Nat} (h : pool.slots[n]? = some c) : ∃ m ≤ n, pool.FirstAt c m := by
  induction n using Nat.strongRecOn with
  | ind n ih =>
    by_cases hfirst : ∀ m < n, pool.slots[m]? ≠ some c
    · exact ⟨n, Nat.le_refl _, h, hfirst⟩
    · push Not at hfirst
      obtain ⟨m, hlt, hm⟩ := hfirst
      obtain ⟨k, hle, hk⟩ := ih m hlt hm
      exact ⟨k, by omega, hk⟩

/-- First slots stay first, since nothing comes in front of what there is. -/
theorem FirstAt.grown {old new : ConstantPool} (h : Grown old new) {n : Nat}
    (hn : old.FirstAt c n) : new.FirstAt c n := by
  refine ⟨h.getElem? hn.1, fun m hlt hm => ?_⟩
  have hsize : n < old.slots.size := (Array.getElem?_eq_some_iff.1 hn.1).1
  have hold : old.slots[m]? = some old.slots[m] := Array.getElem?_eq_getElem (by omega)
  have hsame := h.getElem? hold
  rw [hm, Option.some.injEq] at hsame
  rw [← hsame] at hold
  exact hn.2 m hlt hold

end FirstAt

/-- The pool without constants has an unusable slot in front, and an empty index. There is nothing
to be found, and nothing is. -/
theorem consistent_empty : empty.Consistent where
  size_le := by decide
  index_iff := by
    intro c i
    constructor
    · intro h
      have hnone : empty.index[c]? = none := Std.TreeMap.getElem?_emptyc
      rw [hnone] at h
      cases h
    -- The one slot that there is is unusable, so it holds no constant.
    · rintro ⟨hc, hslot, _⟩
      exfalso
      have hi : i.toNat = 0 := by
        have := (Array.getElem?_eq_some_iff.1 hslot).1
        have hsize : empty.slots.size = 1 := rfl
        omega
      rw [hi] at hslot
      cases hslot
      exact hc rfl

/-! ## Pushing

Pushing is the one thing that changes a pool. A long or a double takes two slots, of which the
second is unusable. -/

/-- The slots that a constant takes. -/
def slotsOf (c : Constant) : List Constant := if c.isWide then [c, .unusable] else [c]

section Push

variable {pool pool' : ConstantPool} {c : Constant}

/-- What pushing does where there is room: the constant takes the slots behind all others, and the
index is told unless it knows the constant. -/
theorem push_eq_ok {i : UInt16} (h : push c pool = .ok i pool') :
    pool.size + c.width ≤ 65535 ∧ i = UInt16.ofNat pool.size
      ∧ pool'.slots.toList = pool.slots.toList ++ slotsOf c
      ∧ pool'.index = pool.index.insertIfNew c i := by
  obtain ⟨slots, index⟩ := pool
  unfold push at h
  simp only at h
  split at h
  · cases h
  · next hsize =>
    cases h
    refine ⟨Nat.le_of_not_lt hsize, rfl, ?_, rfl⟩
    unfold slotsOf
    split <;> simp

/-- Pushing that fails leaves the pool as it is. -/
theorem push_error {e : ClassError} (h : push c pool = .error e pool') : pool' = pool := by
  obtain ⟨slots, index⟩ := pool
  unfold push at h
  simp only at h
  split at h
  · cases h
    rfl
  · cases h

/-- Pushing fails on nothing but a pool that is full. -/
theorem push_overflows {e : ClassError} (h : push c pool = .error e pool') : e = .poolOverflow := by
  obtain ⟨slots, index⟩ := pool
  unfold push at h
  simp only at h
  split at h
  · cases h
    rfl
  · cases h

theorem push_grown {i : UInt16} (h : push c pool = .ok i pool') : Grown pool pool' := by
  obtain ⟨_, _, hslots, _⟩ := push_eq_ok h
  exact ⟨_, hslots.symm⟩

theorem width_pos (c : Constant) : 0 < c.width := by
  unfold Constant.width
  split <;> decide

/-- A pushed constant takes its slots. -/
theorem size_push {i : UInt16} (h : push c pool = .ok i pool') :
    pool'.size = pool.size + c.width := by
  obtain ⟨_, _, hslots, _⟩ := push_eq_ok h
  unfold size
  rw [← Array.length_toList, hslots, List.length_append, Array.length_toList]
  unfold slotsOf Constant.width
  split <;> rfl

theorem push_size_lt {i : UInt16} (h : push c pool = .ok i pool') : pool.size < pool'.size := by
  have hpos := width_pos c
  rw [size_push h]
  omega

/-- What is pushed is in the slot that pushing gives. -/
theorem getElem?_push {i : UInt16} (h : push c pool = .ok i pool') :
    pool'.slots[i.toNat]? = some c ∧ i.toNat = pool.slots.size := by
  obtain ⟨hsize, rfl, hslots, _⟩ := push_eq_ok h
  have hwidth := width_pos c
  have hslot : (UInt16.ofNat pool.size).toNat = pool.slots.size :=
    UInt16.toNat_ofNat_of_lt' (show _ < 65536 by unfold size at *; omega)
  refine ⟨?_, hslot⟩
  rw [hslot, ← Array.getElem?_toList, hslots, ← Array.length_toList,
    List.getElem?_append_right (Nat.le_refl _), Nat.sub_self]
  unfold slotsOf
  split <;> rfl

/-- A constant that a pool does not have gets its first slot where it is pushed. -/
theorem firstAt_push {i : UInt16} (h : push c pool = .ok i pool')
    (hnew : ∀ n : Nat, pool.slots[n]? ≠ some c) : pool'.FirstAt c i.toNat := by
  obtain ⟨_, _, hslots, _⟩ := push_eq_ok h
  obtain ⟨hpushed, hslot⟩ := getElem?_push h
  refine ⟨hpushed, fun m hlt hm => ?_⟩
  rw [hslot] at hlt
  rw [← Array.getElem?_toList, hslots, List.getElem?_append_left (by simpa using hlt),
    Array.getElem?_toList] at hm
  exact hnew m hm

/-- The only new constant that can be found is the one that was pushed. The second slot of a wide
one holds nothing that could be looked for. -/
theorem firstAt_of_push {i : UInt16} (h : push c pool = .ok i pool') {c' : Constant} {n : Nat}
    (hne : c' ≠ c) (husable : c' ≠ .unusable) (hn : pool'.FirstAt c' n) : pool.FirstAt c' n := by
  obtain ⟨_, _, hslots, _⟩ := push_eq_ok h
  have hold : pool.slots[n]? = some c' := by
    have hslot := hn.1
    rw [← Array.getElem?_toList, hslots] at hslot
    by_cases hlt : n < pool.slots.toList.length
    · rw [List.getElem?_append_left hlt] at hslot
      simpa using hslot
    · have hmem : c' ∈ slotsOf c := by
        rw [List.getElem?_append_right (by omega)] at hslot
        exact List.mem_of_getElem? hslot
      unfold slotsOf at hmem
      split at hmem
      · simp [hne, husable] at hmem
      · simp [hne] at hmem
  exact ⟨hold, fun m hlt hm => hn.2 m hlt ((push_grown h).getElem? hm)⟩

/-- A consistent pool has all its constants in the index. -/
theorem Consistent.mem_index (hpool : pool.Consistent) (hc : c ≠ .unusable) {n : Nat}
    (hn : pool.slots[n]? = some c) : c ∈ pool.index := by
  obtain ⟨m, _, hm⟩ := exists_firstAt hn
  have hlt : m < pool.slots.size := (Array.getElem?_eq_some_iff.1 hm.1).1
  have hslot : (UInt16.ofNat m).toNat = m := by
    have hsize := hpool.size_le
    unfold size at hsize
    exact UInt16.toNat_ofNat_of_lt' (show _ < 65536 by omega)
  have hfound := (hpool.index_iff c (UInt16.ofNat m)).2 ⟨hc, by rwa [hslot]⟩
  exact Std.TreeMap.mem_iff_isSome_getElem?.2 (by rw [hfound]; rfl)

/-- The index of a pool that has been pushed to finds a pushed constant in its first slot. If the
pool had it before, that is the slot of then. -/
theorem firstAt_of_index_push {i k : UInt16} (hpool : pool.Consistent) (hc : c ≠ .unusable)
    (h : push c pool = .ok i pool') (hk : pool'.index[c]? = some k) :
    pool'.FirstAt c k.toNat := by
  obtain ⟨_, _, _, hindex⟩ := push_eq_ok h
  rw [hindex, Std.TreeMap.getElem?_insertIfNew] at hk
  simp only [Std.LawfulEqOrd.compare_eq_iff_eq, true_and] at hk
  split at hk
  · next hnew =>
    cases hk
    exact firstAt_push h fun n hn => hnew (hpool.mem_index hc hn)
  · -- The pool has the constant already, and the index keeps the first slot of it.
    exact ((hpool.index_iff c k).1 hk).2.grown (push_grown h)

/-- **Pushing keeps a pool consistent**, if what is pushed is not an unusable slot. A constant that
was there keeps its first slot. -/
theorem push_consistent {i : UInt16} (hpool : pool.Consistent) (hc : c ≠ .unusable)
    (h : push c pool = .ok i pool') : pool'.Consistent := by
  obtain ⟨hsize, _, _, hindex⟩ := push_eq_ok h
  refine ⟨size_push h ▸ hsize, fun c' j => ?_⟩
  -- The index changes for the constant that is pushed, and only if it was new.
  by_cases hsame : c = c'
  · subst hsame
    have hmem : c ∈ pool'.index := by
      rw [hindex]
      exact Std.TreeMap.mem_insertIfNew_self
    obtain ⟨k, hk⟩ := Option.isSome_iff_exists.1 (Std.TreeMap.mem_iff_isSome_getElem?.1 hmem)
    have hfirst := firstAt_of_index_push hpool hc h hk
    rw [hk, Option.some.injEq]
    -- The index may know the constant already; either way it leads to the first slot.
    constructor
    · rintro rfl
      exact ⟨hc, hfirst⟩
    · rintro ⟨_, hj⟩
      exact UInt16.toNat_inj.1 (hfirst.unique hj)
  -- Of all other constants neither the index nor the first slot has changed.
  · rw [hindex, Std.TreeMap.getElem?_insertIfNew]
    simp only [Std.LawfulEqOrd.compare_eq_iff_eq]
    rw [if_neg (fun hboth => hsame hboth.1), hpool.index_iff]
    constructor
    · rintro ⟨husable, hj⟩
      exact ⟨husable, hj.grown (push_grown h)⟩
    · rintro ⟨husable, hj⟩
      exact ⟨husable, firstAt_of_push h (Ne.symm hsame) husable hj⟩

/-- Pushing keeps the index right for any constant, unusable slots included. An index that leads to
a slot need not lead to the first one. -/
theorem push_located {i : UInt16} (hpool : pool.Located) (h : push c pool = .ok i pool') :
    pool'.Located := by
  obtain ⟨_, _, _, hindex⟩ := push_eq_ok h
  intro c' j hj
  rw [hindex, Std.TreeMap.getElem?_insertIfNew] at hj
  simp only [Std.LawfulEqOrd.compare_eq_iff_eq] at hj
  split at hj
  · next hnew =>
    cases hj
    rw [← hnew.1]
    exact (getElem?_push h).1
  · exact (push_grown h).getElem? (hpool c' j hj)

end Push

/-! ## All pools

There are pools that are read and pools that come about by interning. An invariant of all of them is
proved by induction over `Reachable`, and later modules ask for nothing but that a pool is
reachable. -/

/-- The pool that a computation leaves, whether it succeeds or not. -/
def after {α : Type} (x : Interning α) (pool : ConstantPool) : ConstantPool :=
  match x pool with
  | .ok _ pool => pool
  | .error _ pool => pool

/-- The pools that there are: the empty one, those that are read, and those that interning
leaves, whether it succeeds or not. -/
inductive Reachable : ConstantPool → Prop where
  | empty : Reachable empty
  | read {bs rest : Bytes} {pool : ConstantPool} (h : read bs = .ok (pool, rest)) : Reachable pool
  | intern {pool : ConstantPool} (h : Reachable pool) (c : Constant) (hc : c ≠ .unusable) :
    Reachable (after (intern c) pool)

/-- Interning finds the constant or pushes it. -/
theorem intern_eq (c : Constant) (pool : ConstantPool) :
    intern c pool = match pool.index[c]? with
      | some found => .ok found pool
      | none => push c pool := by
  show (match pool.index[c]? with
    | some found => (pure found : Interning UInt16)
    | none => push c) pool = _
  cases pool.index[c]? <;> rfl

/-- Interning pushes the constant or leaves the pool as it is. -/
theorem after_intern_cases (c : Constant) (pool : ConstantPool) : after (intern c) pool = pool
    ∨ ∃ i pool', push c pool = .ok i pool' ∧ after (intern c) pool = pool' := by
  unfold after
  rw [intern_eq]
  cases pool.index[c]? with
  | some found => exact .inl rfl
  | none =>
    simp only
    cases h : push c pool with
    | ok i pool' => exact .inr ⟨i, pool', rfl, rfl⟩
    | error e pool' => exact .inl (push_error h)

/-- Interning keeps a pool consistent, also where it fails. -/
theorem consistent_after_intern {pool : ConstantPool} (hpool : pool.Consistent) {c : Constant}
    (hc : c ≠ .unusable) : (after (intern c) pool).Consistent := by
  rcases after_intern_cases c pool with hsame | ⟨i, pool', h, hnew⟩
  · rwa [hsame]
  · rw [hnew]
    exact push_consistent hpool hc h

/-- Interning keeps the index of a pool right. -/
theorem located_after_intern {pool : ConstantPool} (hpool : pool.Located) (c : Constant) :
    (after (intern c) pool).Located := by
  rcases after_intern_cases c pool with hsame | ⟨i, pool', h, hnew⟩
  · rwa [hsame]
  · rw [hnew]
    exact push_located hpool h

/-- Behind interning a pool has grown, if only by nothing. -/
theorem grown_after_intern (pool : ConstantPool) (c : Constant) :
    Grown pool (after (intern c) pool) := by
  rcases after_intern_cases c pool with hsame | ⟨i, pool', h, hnew⟩
  · rw [hsame]
    exact Grown.refl pool
  · rw [hnew]
    exact push_grown h

theorem readPair_eq_ok {make : UInt16 → UInt16 → Constant} {bs rest : Bytes} {c : Constant}
    (h : Constant.readPair make bs = .ok (c, rest)) : ∃ a b, c = make a b := by
  obtain ⟨a, mid, _, h⟩ := Reader.bind_eq_ok.1 h
  obtain ⟨b, mid, _, h⟩ := Reader.bind_eq_ok.1 h
  cases h
  exact ⟨a, b, rfl⟩

/-- No constant is read as an unusable slot, since there is no tag for it. Only pushing a wide
constant makes one. -/
theorem readFields_ne_unusable {tag : UInt8} {bs rest : Bytes} {c : Constant}
    (h : Constant.readFields tag bs = .ok (c, rest)) : c ≠ .unusable := by
  unfold Constant.readFields at h
  generalize tag.toNat = n at h
  split at h
  -- A method handle has a byte in front of its index, so it is no case of the two below.
  case h_12 =>
    obtain ⟨a, mid, _, h⟩ := Reader.bind_eq_ok.1 h
    obtain ⟨b, mid, _, h⟩ := Reader.bind_eq_ok.1 h
    cases h
    simp
  case h_18 => cases h
  all_goals
    first
    | obtain ⟨a, b, rfl⟩ := readPair_eq_ok h
      simp
    | obtain ⟨a, mid, _, h⟩ := Reader.bind_eq_ok.1 h
      cases h
      simp

theorem read_ne_unusable {bs rest : Bytes} {c : Constant} (h : Constant.read bs = .ok (c, rest)) :
    c ≠ .unusable := by
  obtain ⟨tag, mid, _, h⟩ := Reader.bind_eq_ok.1 h
  exact readFields_ne_unusable h

/-- Reading a pool pushes its constants in order, so that a pool which is read is consistent. The
index is made while they are pushed. -/
theorem consistent_of_readSlots {missing : Nat} {pool pool' : ConstantPool} {bs rest : Bytes}
    (hpool : pool.Consistent) (h : readSlots missing pool bs = .ok (pool', rest)) :
    pool'.Consistent := by
  fun_induction readSlots missing pool bs with
  | case1 pool bs =>
    cases h
    exact hpool
  | case2 | case3 | case4 => cases h
  | case5 pool bs c rest hread slot next hpush _ missing ih =>
    exact ih (push_consistent hpool (read_ne_unusable hread) hpush) h
  | case6 pool bs missing c rest hread slot next hpush _ ih =>
    exact ih (push_consistent hpool (read_ne_unusable hread) hpush) h

/-- **Every pool is consistent.** The three cases are those in which pools come about. -/
theorem Reachable.consistent {pool : ConstantPool} (h : Reachable pool) : pool.Consistent := by
  induction h with
  | empty => exact consistent_empty
  | read h =>
    obtain ⟨count, mid, _, h⟩ := Reader.bind_eq_ok.1 h
    split at h
    · cases h
    · exact consistent_of_readSlots consistent_empty h
  | intern _ c hc ih => exact consistent_after_intern ih hc

end ConstantPool
end ClassLoom
