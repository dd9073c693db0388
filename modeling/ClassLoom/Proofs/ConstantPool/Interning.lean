import ClassLoom.Proofs.ConstantPool.Consistency

/-!
# What interning gives

A computation that `Appends` only ever adds slots to a pool. What is interned is found under
the index that it got, in the pool as it is then and in every pool that has grown from it.

* `internClass_spec`, `internMember_spec`: what an index stands for;
* `Appends.bind`, `Appends.mapM`, `Appends.foldlM`: computations made of computations;
* `GrowsTo`: what is left of that between two pools.
-/

namespace ClassLoom

open ConstantPool

namespace Interning

/-! ## Computations that append

All that interning does to a pool is to add slots behind those that there are. `Appends` says so of
a computation as a whole, also for the case that it fails after it has added some, and it goes
through binds, traversals and folds. Whatever is true of every pool that has grown is then true of
the pool behind the computation. -/

/-- Whether a computation only adds slots to a pool, also where it fails. -/
structure Appends {α : Type} (x : Interning α) : Prop where
  grown : ∀ pool, Grown pool (after x pool)
  reachable : ∀ pool, Reachable pool → Reachable (after x pool)
  located : ∀ pool, Located pool → Located (after x pool)
  /-- A pool that gets no slots stays as it is. -/
  unchanged : ∀ pool, (after x pool).size ≤ pool.size → after x pool = pool

section Appends

variable {α β : Type}

/-- A pool has grown behind a computation that succeeds. -/
theorem Appends.grown_of_ok {x : Interning α} (hx : Appends x) {pool pool' : ConstantPool} {a : α}
    (h : x pool = .ok a pool') : Grown pool pool' := by
  have hgrown := hx.grown pool
  unfold after at hgrown
  rwa [h] at hgrown

/-- It has grown behind one that fails, too: what was interned before the failure stays. -/
theorem Appends.grown_of_error {x : Interning α} (hx : Appends x) {pool pool' : ConstantPool}
    {e : ClassError} (h : x pool = .error e pool') : Grown pool pool' := by
  have hgrown := hx.grown pool
  unfold after at hgrown
  rwa [h] at hgrown

/-- A pool that comes about by interning stays one. -/
theorem Appends.reachable_of_ok {x : Interning α} (hx : Appends x) {pool pool' : ConstantPool}
    {a : α} (hpool : Reachable pool) (h : x pool = .ok a pool') : Reachable pool' := by
  have hreachable := hx.reachable pool hpool
  unfold after at hreachable
  rwa [h] at hreachable

/-- Its index stays right. -/
theorem Appends.located_of_ok {x : Interning α} (hx : Appends x) {pool pool' : ConstantPool}
    {a : α} (hpool : Located pool) (h : x pool = .ok a pool') : Located pool' := by
  have hlocated := hx.located pool hpool
  unfold after at hlocated
  rwa [h] at hlocated

/-- A computation that has added no slot has left the pool as it is. This is how to tell from the
outside that all constants were there already. -/
theorem Appends.eq_of_size_le {x : Interning α} (hx : Appends x) {pool pool' : ConstantPool}
    {a : α} (h : x pool = .ok a pool') (hsize : pool'.size ≤ pool.size) : pool' = pool := by
  have hsame := hx.unchanged pool
  unfold after at hsame
  rw [h] at hsame
  exact hsame hsize

/-- A computation that leaves the pool as it is appends. -/
theorem Appends.of_same {x : Interning α} (h : ∀ pool, after x pool = pool) : Appends x where
  grown pool := by rw [h]; exact Grown.refl pool
  reachable pool hpool := by rwa [h]
  located pool hpool := by rwa [h]
  unchanged pool _ := h pool

theorem Appends.pure (a : α) : Appends (pure a : Interning α) := .of_same fun _ => rfl

theorem Appends.get : Appends (get : Interning ConstantPool) := .of_same fun _ => rfl

theorem Appends.throw (e : ClassError) : Appends (throw e : Interning α) := .of_same fun _ => rfl

theorem Appends.lift (x : Except ClassError α) : Appends (liftM x : Interning α) :=
  .of_same fun _ => by cases x <;> rfl

/-- The pool behind two computations is that behind the second, or behind the first if that
fails. -/
theorem after_bind (x : Interning α) (f : α → Interning β) (pool : ConstantPool) :
    after (x >>= f) pool = match x pool with
      | .ok a mid => after (f a) mid
      | .error _ mid => mid := by
  unfold after
  show (match EStateM.bind x f pool with | .ok _ p => p | .error _ p => p) = _
  unfold EStateM.bind
  cases x pool <;> rfl

/-- A relation between pools that holds behind each of two computations holds behind both, provided
that it is transitive. The parts of `Appends` are such relations. -/
theorem rel_after_bind {R : ConstantPool → ConstantPool → Prop}
    (htrans : ∀ {a b c}, R a b → R b c → R a c) {x : Interning α} {f : α → Interning β}
    (hx : ∀ pool, R pool (after x pool)) (hf : ∀ a pool, R pool (after (f a) pool))
    (pool : ConstantPool) : R pool (after (x >>= f) pool) := by
  have hfirst := hx pool
  rw [after_bind]
  unfold after at hfirst
  cases h : x pool with
  | ok a mid =>
    rw [h] at hfirst
    exact htrans hfirst (hf a mid)
  | error e mid =>
    rw [h] at hfirst
    exact hfirst

/-- **Computations that append do so one behind the other**, whichever of the two may fail. If the
second one fails, what the first one has added stays. -/
theorem Appends.bind {x : Interning α} {f : α → Interning β} (hx : Appends x)
    (hf : ∀ a, Appends (f a)) : Appends (x >>= f) where
  grown := rel_after_bind (R := Grown) Grown.trans hx.grown fun a => (hf a).grown
  reachable := rel_after_bind (R := fun old new => Reachable old → Reachable new)
    (fun hab hbc ha => hbc (hab ha)) hx.reachable fun a => (hf a).reachable
  located := rel_after_bind (R := fun old new => Located old → Located new)
    (fun hab hbc ha => hbc (hab ha)) hx.located fun a => (hf a).located
  unchanged pool hsize := by
    have hgrown := hx.grown pool
    have hsame := hx.unchanged pool
    rw [after_bind] at hsize ⊢
    unfold after at hgrown hsame
    cases h : x pool with
    | ok a mid =>
      rw [h] at hgrown hsame hsize
      simp only at hgrown hsame hsize ⊢
      -- A pool that has not become larger in the end has not in between.
      have hle := hgrown.size_le
      have hle' := ((hf a).grown mid).size_le
      have hmid : mid = pool := hsame (by omega)
      have hend := (hf a).unchanged mid
      rw [hmid] at hend hsize ⊢
      exact hend hsize
    | error e mid =>
      rw [h] at hsame hsize
      exact hsame hsize

/-- So does a traversal whose every step appends. -/
theorem Appends.mapM {f : α → Interning β} {xs : List α} (h : ∀ x ∈ xs, Appends (f x)) :
    Appends (xs.mapM f) := by
  induction xs with
  | nil =>
    rw [List.mapM_nil]
    exact .pure _
  | cons x xs ih =>
    rw [List.mapM_cons]
    refine (h x (List.mem_cons_self ..)).bind fun y => ?_
    exact (ih fun x hx => h x (List.mem_cons_of_mem _ hx)).bind fun ys => .pure _

/-- A traversal runs its computation once for each item, each time in a pool that has grown from the
first one into the last one. What was found for an item so is still there at the end. -/
theorem Appends.forall₂_of_mapM {f : α → Interning β} (hf : ∀ x, Appends (f x)) {xs : List α}
    {ys : List β} {pool pool' : ConstantPool} (hpool : Reachable pool)
    (h : xs.mapM f pool = .ok ys pool') :
    List.Forall₂ (fun x y => ∃ before after, Reachable before ∧ Grown pool before
      ∧ f x before = .ok y after ∧ Grown after pool') xs ys := by
  induction xs generalizing pool ys with
  | nil =>
    rw [List.mapM_nil] at h
    obtain ⟨rfl, rfl⟩ := pure_eq_ok.1 h
    exact .nil
  | cons x xs ih =>
    have hxs : Appends (xs.mapM f) := Appends.mapM fun x _ => hf x
    rw [List.mapM_cons] at h
    obtain ⟨y, mid, hy, h⟩ := bind_eq_ok.1 h
    obtain ⟨rest, mid', hrest, hend⟩ := bind_eq_ok.1 h
    obtain ⟨rfl, rfl⟩ := pure_eq_ok.1 hend
    have hgrown := (hf x).grown_of_ok hy
    -- The first item is written in the given pool, and each later one in what those before it left.
    refine .cons ⟨pool, mid, hpool, .refl pool, hy, hxs.grown_of_ok hrest⟩ ?_
    refine (ih ((hf x).reachable_of_ok hpool hy) hrest).imp ?_
    rintro x y ⟨before, after, hbefore, hmid, hrun, hafter⟩
    exact ⟨before, after, hbefore, hgrown.trans hmid, hrun, hafter⟩

/-- So does a fold whose every step appends. -/
theorem Appends.foldlM {f : β → α → Interning β} {xs : List α} {start : β}
    (h : ∀ state, ∀ x ∈ xs, Appends (f state x)) : Appends (xs.foldlM f start) := by
  induction xs generalizing start with
  | nil =>
    rw [List.foldlM_nil]
    exact .pure _
  | cons x xs ih =>
    rw [List.foldlM_cons]
    refine (h start x (List.mem_cons_self ..)).bind fun state => ?_
    exact ih fun state x hx => h state x (List.mem_cons_of_mem _ hx)

end Appends
end Interning

/-! ## Pools before and after

Of two pools of which the later one has grown from the earlier, by interning alone. Everything that
is proved about an index in the first one holds in the second. -/

/-- How a pool stands to an earlier one when all that happened in between was interned. -/
structure ConstantPool.GrowsTo (old new : ConstantPool) : Prop where
  grown : Grown old new
  reachable : Reachable old → Reachable new
  /-- A pool that got no slots is the same as before. -/
  unchanged : new.size ≤ old.size → new = old

namespace ConstantPool.GrowsTo

theorem refl (pool : ConstantPool) : GrowsTo pool pool := ⟨Grown.refl pool, id, fun _ => rfl⟩

/-- Two such steps one behind the other. -/
theorem trans {a b c : ConstantPool} (hab : GrowsTo a b) (hbc : GrowsTo b c) : GrowsTo a c where
  grown := hab.grown.trans hbc.grown
  reachable ha := hbc.reachable (hab.reachable ha)
  unchanged hsize := by
    have hle := hab.grown.size_le
    have hle' := hbc.grown.size_le
    rw [hbc.unchanged (by omega), hab.unchanged (by omega)]

/-- Two steps that lead back to a pool have both left it as it is. -/
theorem eq_of_trans_self {a b : ConstantPool} (hab : GrowsTo a b) (hba : GrowsTo b a) : b = a :=
  hab.unchanged hba.grown.size_le

end ConstantPool.GrowsTo

/-- A computation that appends leads from a pool to one that has grown from it. -/
theorem Interning.Appends.growsTo {α : Type} {x : Interning α} (hx : Appends x)
    {pool pool' : ConstantPool} {a : α} (h : x pool = .ok a pool') :
    ConstantPool.GrowsTo pool pool' :=
  ⟨hx.grown_of_ok h, fun hpool => hx.reachable_of_ok hpool h, hx.eq_of_size_le h⟩

namespace ConstantPool

open Interning (Appends)

/-! ## Single constants

A constant is found under the slot that it is given, and that is the first slot of its kind. -/

/-- Interning a constant appends it or finds it. -/
theorem appends_intern {c : Constant} (hc : c ≠ .unusable) : Appends (intern c) where
  grown pool := grown_after_intern pool c
  reachable pool hpool := hpool.intern c hc
  located pool hpool := located_after_intern hpool c
  unchanged pool hsize := by
    rcases after_intern_cases c pool with hsame | ⟨i, pool', h, hnew⟩
    · exact hsame
    · -- A constant that has been pushed has taken a slot.
      rw [hnew] at hsize
      have hlt := push_size_lt h
      omega

section Interned

variable {pool pool' : ConstantPool} {c : Constant} {i : UInt16}

/-- The index has what is interned, and leads to what that got. If the constant was there, it gets
the slot that it has; if not, the next one, and the index is told. -/
theorem index_of_intern (h : intern c pool = .ok i pool') : pool'.index[c]? = some i := by
  rw [intern_eq] at h
  cases hfound : pool.index[c]? with
  | some found =>
    rw [hfound] at h
    cases h
    exact hfound
  | none =>
    rw [hfound] at h
    obtain ⟨_, _, _, hindex⟩ := push_eq_ok h
    have hmem : c ∉ pool.index := fun hmem => by
      have hsome := Std.TreeMap.mem_iff_isSome_getElem?.1 hmem
      rw [hfound] at hsome
      cases hsome
    rw [hindex, Std.TreeMap.getElem?_insertIfNew, if_pos ⟨by simp, hmem⟩]

/-- **What is interned is found** under the index that it got, in the pool behind. -/
theorem intern_spec (hpool : pool.Located) (hc : c ≠ .unusable)
    (h : intern c pool = .ok i pool') : pool'.get i = .ok c := by
  have hlocated := (appends_intern hc).located_of_ok hpool h
  exact get_eq_ok.2 ⟨hlocated c i (index_of_intern h), hc⟩

/-- **What is interned gets its first slot**, even if an earlier pool had the constant twice. -/
theorem firstAt_of_intern (hpool : pool.Consistent) (hc : c ≠ .unusable)
    (h : intern c pool = .ok i pool') : pool'.FirstAt c i.toNat := by
  have hconsistent := consistent_after_intern hpool hc
  rw [after, h] at hconsistent
  exact ((hconsistent.index_iff c i).1 (index_of_intern h)).2

/-- Conversely, a constant that is in a first slot gets that one, and the pool stays. -/
theorem intern_of_firstAt (hpool : pool.Consistent) (hc : c ≠ .unusable)
    (h : pool.FirstAt c i.toNat) : intern c pool = .ok i pool := by
  rw [intern_eq, (hpool.index_iff c i).2 ⟨hc, h⟩]

end Interned

/-! ## Symbols

Symbols are made of constants that name others. What is said of constants is carried through, one
index after the other. -/

theorem appends_internUtf8 (text : String) : Appends (internUtf8 text) :=
  appends_intern (by simp)

theorem appends_internClass (name : String) : Appends (internClass name) :=
  (appends_internUtf8 name).bind fun _ => appends_intern (by simp)

theorem appends_internNameAndType (name descriptor : String) :
    Appends (internNameAndType name descriptor) :=
  (appends_internUtf8 name).bind fun _ =>
    (appends_internUtf8 descriptor).bind fun _ => appends_intern (by simp)

theorem memberConstant_ne_unusable (kind : MemberKind) (owner member : UInt16) :
    memberConstant kind owner member ≠ .unusable := by
  cases kind <;> simp [memberConstant]

/-- A reference to a member is interned in three steps: its class, its name with the descriptor, and
both together. -/
theorem appends_internMember (ref : MemberRef) : Appends (internMember ref) :=
  (appends_internClass ref.owner).bind fun _ =>
    (appends_internNameAndType ref.name ref.descriptor).bind fun _ =>
      appends_intern (memberConstant_ne_unusable _ _ _)

section Symbols

variable {pool pool' : ConstantPool} {i : UInt16}

theorem internUtf8_spec {text : String} (hpool : Located pool)
    (h : internUtf8 text pool = .ok i pool') : pool'.getUtf8 i = .ok text :=
  getUtf8_eq_ok.2 (intern_spec hpool (by simp) h)

/-- An interned class name is read back. Its text came first, and the pool has only grown since. -/
theorem internClass_spec {name : String} (hpool : Reachable pool)
    (h : internClass name pool = .ok i pool') : pool'.getClassName i = .ok name := by
  obtain ⟨text, mid, htext, h⟩ := Interning.bind_eq_ok.1 h
  have hmid := (appends_internUtf8 name).reachable_of_ok hpool htext
  have hfound := intern_spec hmid.consistent.located (by simp) h
  have hgrown := (appends_intern (by simp)).grown_of_ok h
  have htext := internUtf8_spec hpool.consistent.located htext
  exact getClassName_eq_ok.2 ⟨text, hfound, hgrown.getUtf8 htext⟩

/-- An interned name with a descriptor is read back, each from a text of its own. The three
constants are interned one after the other, and the pool only grows behind each. -/
theorem internNameAndType_spec {name descriptor : String} (hpool : Reachable pool)
    (h : internNameAndType name descriptor pool = .ok i pool') :
    pool'.getNameAndType i = .ok (name, descriptor) := by
  obtain ⟨nameAt, mid, hname, h⟩ := Interning.bind_eq_ok.1 h
  obtain ⟨descriptorAt, mid', hdescriptor, h⟩ := Interning.bind_eq_ok.1 h
  have hmid := (appends_internUtf8 name).reachable_of_ok hpool hname
  have hmid' := (appends_internUtf8 descriptor).reachable_of_ok hmid hdescriptor
  have hfound := intern_spec hmid'.consistent.located (by simp) h
  have hgrown := (appends_internUtf8 descriptor).grown_of_ok hdescriptor
  have hgrown' := (appends_intern (by simp)).grown_of_ok h
  exact getNameAndType_eq_ok.2 ⟨nameAt, descriptorAt, hfound,
    (hgrown.trans hgrown').getUtf8 (internUtf8_spec hpool.consistent.located hname),
    hgrown'.getUtf8 (internUtf8_spec hmid.consistent.located hdescriptor)⟩

/-- **An interned reference is found** under the index that it got, with all its parts. So is its
kind, which the constant says. -/
theorem internMember_spec {ref : MemberRef} (hpool : Reachable pool)
    (h : internMember ref pool = .ok i pool') : pool'.getMember i = .ok ref := by
  obtain ⟨owner, mid, howner, h⟩ := Interning.bind_eq_ok.1 h
  obtain ⟨member, mid', hmember, h⟩ := Interning.bind_eq_ok.1 h
  have hmid := (appends_internClass ref.owner).reachable_of_ok hpool howner
  have hmid' := (appends_internNameAndType ref.name ref.descriptor).reachable_of_ok hmid hmember
  have hconstant := memberConstant_ne_unusable ref.kind owner member
  have hfound := intern_spec hmid'.consistent.located hconstant h
  have hgrown := (appends_internNameAndType ref.name ref.descriptor).grown_of_ok hmember
  have hgrown' := (appends_intern hconstant).grown_of_ok h
  exact getMember_eq_ok.2 ⟨owner, member, hfound,
    hgrown'.getNameAndType (internNameAndType_spec hmid hmember),
    (hgrown.trans hgrown').getClassName (internClass_spec hpool howner)⟩

end Symbols
end ConstantPool
end ClassLoom
