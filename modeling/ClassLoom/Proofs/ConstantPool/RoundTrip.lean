import ClassLoom.Proofs.ConstantPool.Consistency
import ClassLoom.Proofs.ConstantPool.Spelling
import Mathlib.Algebra.GroupWithZero.Nat

/-!
# Pools read back from their written forms

Every pool is the empty one with some constants pushed to it, one after the other
(`Reachable.exists_pushed`). Those constants are what is written, and reading them pushes them
again, so the same pool is read, index and all.

* `read_eq_ok_iff`: the pools that are read are those of the constants that are spelled;
* `bytes_eq_ok_iff`: what is written for a pool.
-/

namespace ClassLoom

namespace ConstantPool

/-! ## Constants in a row

A pool is made by pushing constants to the empty one. `Pushed` has them in a row, and a pool that
can be is one of some row. -/

/-- Whether pushing the constants `cs` to a pool leaves another. -/
inductive Pushed : ConstantPool → List Constant → ConstantPool → Prop where
  | nil (pool : ConstantPool) : Pushed pool [] pool
  | cons {pool mid last : ConstantPool} {c : Constant} {cs : List Constant} {i : UInt16}
    (hc : c ≠ .unusable) (hpush : push c pool = .ok i mid) (hrest : Pushed mid cs last) :
    Pushed pool (c :: cs) last

namespace Pushed

variable {pool last : ConstantPool} {cs : List Constant}

theorem usable (h : Pushed pool cs last) : ∀ c ∈ cs, c ≠ .unusable := by
  induction h with
  | nil => simp
  | cons hc _ _ ih => exact List.forall_mem_cons.2 ⟨hc, ih⟩

/-- The slots of the pool are those of the constants, one behind the other. -/
theorem slots (h : Pushed pool cs last) :
    last.slots.toList = pool.slots.toList ++ cs.flatMap slotsOf := by
  induction h with
  | nil => simp
  | cons _ hpush _ ih =>
    obtain ⟨_, _, hslots, _⟩ := push_eq_ok hpush
    rw [ih, hslots, List.flatMap_cons, List.append_assoc]

/-- The same constants make the same pool. Pushing is a function, and each step has one result. A
pool is known by the constants that were pushed, and by their order. -/
theorem unique (h : Pushed pool cs last) {last' : ConstantPool} (h' : Pushed pool cs last') :
    last = last' := by
  induction h with
  | nil =>
    cases h'
    rfl
  | cons _ hpush _ ih =>
    cases h' with
    | cons _ hpush' hrest' =>
      rw [hpush] at hpush'
      cases hpush'
      exact ih hrest'

/-- One more constant is pushed behind all others. -/
theorem snoc (h : Pushed pool cs last) {c : Constant} {i : UInt16} {next : ConstantPool}
    (hc : c ≠ .unusable) (hpush : push c last = .ok i next) : Pushed pool (cs ++ [c]) next := by
  induction h with
  | nil => exact .cons hc hpush (.nil next)
  | cons hc' hpush' _ ih => exact .cons hc' hpush' (ih hpush)

end Pushed
end ConstantPool

/-! ## Spelled constants in a row

The bytes of a pool are those of its constants, with the spellings that were there. The count in
front is that of slots, not of constants, and so reading goes on until all slots are filled. -/

namespace SpelledConstant

/-- Reads constants until `missing` slots are filled. -/
def readSlots : Nat → Reader (List SpelledConstant)
  | 0 => return []
  | missing + 1 => do
    let c ← read
    if c.isWide then
      match missing with
      | 0 => throw (.malformed "constant_pool")
      | missing + 1 => return c :: (← readSlots missing)
    else return c :: (← readSlots missing)

/-- Reads the count of slots and all constants. -/
def readAll : Reader (List SpelledConstant) := do
  let count ← Reader.word16
  if count = 0 then throw (.malformed "constant_pool")
  readSlots (count.toNat - 1)

/-- The slots that constants take. -/
def slotCount (cs : List SpelledConstant) : Nat := (cs.map fun c => if c.isWide then 2 else 1).sum

/-- The written form of the count of slots and all constants. -/
def allBytes (cs : List SpelledConstant) : Except ClassError Bytes := do
  let parts ← cs.mapM bytes
  return Bytes.word16 (UInt16.ofNat (slotCount cs + 1)) ++ parts.flatten

/-- What is read first, and what behind it, into the slots that the first one leaves. A wide
constant is refused where one slot is left. -/
theorem readSlots_succ_eq_ok {missing : Nat} {bs rest : Bytes} {cs : List SpelledConstant} :
    readSlots (missing + 1) bs = .ok (cs, rest)
      ↔ ∃ c more mid left, cs = c :: more ∧ read bs = .ok (c, mid)
        ∧ (if c.isWide then 2 else 1) + left = missing + 1
        ∧ readSlots left mid = .ok (more, rest) := by
  rw [readSlots, Reader.bind_eq_ok]
  constructor
  · rintro ⟨c, mid, hread, h⟩
    split at h
    · next hwide =>
      -- A wide constant in the last slot is refused.
      cases missing with
      | zero => cases h
      | succ left =>
        obtain ⟨more, last, hmore, h⟩ := Reader.bind_eq_ok.1 h
        cases h
        exact ⟨c, more, mid, left, rfl, hread, by rw [if_pos hwide]; omega, hmore⟩
    · next hwide =>
      obtain ⟨more, last, hmore, h⟩ := Reader.bind_eq_ok.1 h
      cases h
      exact ⟨c, more, mid, missing, rfl, hread, by rw [if_neg hwide]; omega, hmore⟩
  · rintro ⟨c, more, mid, left, rfl, hread, hleft, hmore⟩
    refine ⟨c, mid, hread, ?_⟩
    split at hleft
    · next hwide =>
      obtain rfl : missing = left + 1 := by omega
      rw [if_pos hwide]
      exact Reader.bind_eq_ok.2 ⟨more, rest, hmore, rfl⟩
    · next hwide =>
      obtain rfl : left = missing := by omega
      rw [if_neg hwide]
      exact Reader.bind_eq_ok.2 ⟨more, rest, hmore, rfl⟩

theorem lt_of_slots {c : SpelledConstant} {left missing : Nat}
    (h : (if c.isWide then 2 else 1) + left = missing) : left < missing := by
  split at h <;> omega

/-- Constants that fill the slots are written as they were read. They take exactly the slots that
there are, as a wide one at the end is refused. -/
theorem bytes_of_readSlots {missing : Nat} {bs rest : Bytes} {cs : List SpelledConstant}
    (h : readSlots missing bs = .ok (cs, rest)) :
    slotCount cs = missing
      ∧ ∃ parts, cs.mapM bytes = .ok parts ∧ bs = parts.flatten ++ rest := by
  -- On the slots that are left: a constant takes one or two of them.
  induction missing using Nat.strongRecOn generalizing bs cs with
  | ind missing ih =>
    cases missing with
    | zero =>
      cases h
      exact ⟨rfl, [], rfl, rfl⟩
    | succ missing =>
      obtain ⟨c, more, mid, left, rfl, hread, hleft, hmore⟩ := readSlots_succ_eq_ok.1 h
      obtain ⟨taken, htaken, rfl⟩ := bytes_of_read hread
      obtain ⟨hcount, parts, hparts, rfl⟩ := ih left (lt_of_slots hleft) hmore
      refine ⟨?_, taken :: parts, ?_, by rw [List.flatten_cons, List.append_assoc]⟩
      · unfold slotCount at hcount ⊢
        rw [List.map_cons, List.sum_cons, hcount, hleft]
      · rw [mapM_eq_ok] at hparts ⊢
        exact .cons htaken hparts

/-- **A table of constants is written as it was read.** The count in front is one more than the
slots, since slot zero holds nothing. -/
theorem bytes_of_readAll {bs rest : Bytes} {cs : List SpelledConstant}
    (h : readAll bs = .ok (cs, rest)) :
    ∃ taken, allBytes cs = .ok taken ∧ bs = taken ++ rest := by
  obtain ⟨count, mid, hcount, h⟩ := Reader.bind_eq_ok.1 h
  rw [Reader.word16_eq_ok] at hcount
  split at h
  · cases h
  · next hne =>
    obtain ⟨hslots, parts, hparts, rfl⟩ := bytes_of_readSlots h
    have hpos : count.toNat ≠ 0 := fun hzero => hne (UInt16.toNat.inj hzero)
    have hword : UInt16.ofNat (slotCount cs + 1) = count := by
      rw [hslots, Nat.sub_add_cancel (by omega), UInt16.ofNat_toNat]
    refine ⟨_, bind_eq_ok.2 ⟨parts, hparts, rfl⟩, ?_⟩
    rw [hword, hcount, List.append_assoc]

/-- Spelled constants take the slots of what they spell. -/
theorem slotCount_eq {spelled : List SpelledConstant} {cs : List Constant}
    (h : List.Forall₂ (fun s c => constant? s = some c) spelled cs) :
    slotCount spelled = (cs.flatMap ConstantPool.slotsOf).length := by
  induction h with
  | nil => rfl
  | @cons s c spelled cs hconstant _ ih =>
    unfold slotCount at ih ⊢
    rw [List.map_cons, List.sum_cons, ih, ← isWide_eq hconstant, List.flatMap_cons,
      List.length_append]
    unfold ConstantPool.slotsOf
    split <;> rfl

theorem forall₂_spell (cs : List Constant) :
    List.Forall₂ (fun s c => constant? s = some c) (cs.map spell) cs := by
  rw [List.forall₂_map_left_iff, List.forall₂_same]
  exact fun c _ => constant?_spell c

/-- What is spelled canonically is written as it is spelled. Only texts have a choice. Each constant
is written on its own, so the bytes of all of them follow. -/
theorem mapM_bytes_of_isCanonical {spelled : List SpelledConstant} {cs : List Constant}
    {parts : List Bytes} (h : List.Forall₂ (fun s c => constant? s = some c) spelled cs)
    (hcanonical : ∀ s ∈ spelled, s.IsCanonical) (hparts : spelled.mapM bytes = .ok parts) :
    cs.mapM Constant.bytes = .ok parts := by
  rw [mapM_eq_ok] at hparts ⊢
  induction h generalizing parts with
  | nil =>
    cases hparts
    exact .nil
  | @cons s c spelled cs hconstant _ ih =>
    obtain ⟨hs, hspelled⟩ := List.forall_mem_cons.1 hcanonical
    obtain ⟨part, more, hpart, hmore, rfl⟩ := List.forall₂_cons_left_iff.1 hparts
    refine .cons ?_ (ih hspelled hmore)
    rwa [bytes_of_isCanonical hs hconstant]

/-- Written constants are read back as their spellings. Unusable slots are none of them, as nothing
is written for these. -/
theorem readsBack_readSlots {cs : List Constant} {parts : List Bytes}
    (husable : ∀ c ∈ cs, c ≠ .unusable) (h : cs.mapM Constant.bytes = .ok parts) :
    ReadsBack (readSlots (slotCount (cs.map spell))) parts.flatten (cs.map spell) := by
  rw [mapM_eq_ok] at h
  -- On the constants, each with the slots that are left for it and for the others.
  induction h with
  | nil => exact ReadsBack.pure []
  | @cons c part cs parts hhead _ ih =>
    obtain ⟨hc, hcs⟩ := List.forall_mem_cons.1 husable
    intro rest
    have hslots : (if (spell c).isWide then 2 else 1) + slotCount (cs.map spell)
        = slotCount ((c :: cs).map spell) := by
      unfold slotCount
      rw [List.map_cons, List.map_cons, List.sum_cons]
    obtain ⟨missing, hmissing⟩ := Nat.exists_eq_add_one.2 (Nat.zero_lt_of_lt (lt_of_slots hslots))
    rw [hmissing] at hslots ⊢
    rw [readSlots_succ_eq_ok, List.flatten_cons, List.append_assoc]
    exact ⟨spell c, cs.map spell, _, _, rfl, readsBack_spell hc hhead _, hslots, ih hcs rest⟩

end SpelledConstant

/-! ## Pools

Reading a pool is reading spelled constants, and pushing what they spell. The two are told apart
here: the first is about bytes, the second about slots. -/

namespace ConstantPool

open SpelledConstant (constant? spell)

/-- The constant that is read first is pushed before the others are read. Reading and pushing take
turns, so an error of either kind ends the row. -/
theorem readSlots_succ_eq_ok {missing : Nat} {pool pool' : ConstantPool} {bs rest : Bytes} :
    readSlots (missing + 1) pool bs = .ok (pool', rest)
      ↔ ∃ c i mid next left, Constant.read bs = .ok (c, mid) ∧ push c pool = .ok i next
        ∧ (if c.isWide then 2 else 1) + left = missing + 1
        ∧ readSlots left next mid = .ok (pool', rest) := by
  constructor
  · -- By unfolding, since the equations of the definition are split by what is read.
    intro h
    rw [readSlots.eq_def] at h
    simp only at h
    split at h
    · cases h
    · next c mid hread =>
      split at h
      · cases h
      · next i next hpush =>
        split at h
        · next hwide =>
          cases missing with
          | zero => cases h
          | succ left =>
            exact ⟨c, i, mid, next, left, hread, hpush, by rw [if_pos hwide]; omega, h⟩
        · next hwide =>
          exact ⟨c, i, mid, next, missing, hread, hpush, by rw [if_neg hwide]; omega, h⟩
  · rintro ⟨c, i, mid, next, left, hread, hpush, hleft, hmore⟩
    rw [readSlots.eq_def]
    split at hleft
    · next hwide =>
      obtain rfl : missing = left + 1 := by omega
      simp only [hread, hpush, hwide, if_true, hmore]
    · next hwide =>
      obtain rfl : left = missing := by omega
      simp only [hread, hpush, if_neg hwide, hmore]

/-- Constants are read into a pool where spelled ones are read and what they spell can be pushed.
The induction is on the slots that are missing, which a wide constant makes fewer by two. -/
theorem readSlots_eq_ok_iff {missing : Nat} {pool pool' : ConstantPool} {bs rest : Bytes} :
    readSlots missing pool bs = .ok (pool', rest)
      ↔ ∃ spelled cs, SpelledConstant.readSlots missing bs = .ok (spelled, rest)
        ∧ List.Forall₂ (fun s c => constant? s = some c) spelled cs ∧ Pushed pool cs pool' := by
  -- A wide constant takes two slots at once, so the induction is a strong one.
  induction missing using Nat.strongRecOn generalizing pool bs with
  | ind missing ih =>
    cases missing with
    | zero =>
      constructor
      · intro h
        cases h
        exact ⟨[], [], rfl, .nil, .nil _⟩
      · rintro ⟨spelled, cs, hread, hspelled, hpushed⟩
        cases hread
        cases hspelled
        cases hpushed
        rfl
    | succ missing =>
      rw [readSlots_succ_eq_ok]
      constructor
      · rintro ⟨c, i, mid, next, left, hread, hpush, hleft, hmore⟩
        have hc := read_ne_unusable hread
        obtain ⟨s, hs, hconstant⟩ := SpelledConstant.read_eq_ok_iff.1 hread
        rw [SpelledConstant.isWide_eq hconstant] at hleft
        obtain ⟨spelled, cs, hspelled, hconstants, hpushed⟩ :=
          (ih left (SpelledConstant.lt_of_slots hleft)).1 hmore
        exact ⟨s :: spelled, c :: cs, SpelledConstant.readSlots_succ_eq_ok.2
          ⟨s, spelled, mid, left, rfl, hs, hleft, hspelled⟩, .cons hconstant hconstants,
          .cons hc hpush hpushed⟩
      · rintro ⟨spelled, cs, hspelled, hconstants, hpushed⟩
        obtain ⟨s, more, mid, left, rfl, hs, hleft, hmore⟩ :=
          SpelledConstant.readSlots_succ_eq_ok.1 hspelled
        obtain ⟨c, cs, hconstant, hmoreConstants, rfl⟩ := List.forall₂_cons_left_iff.1 hconstants
        cases hpushed with
        | cons hc hpush hpushed =>
          have hrest := (ih left (SpelledConstant.lt_of_slots hleft)).2
            ⟨more, cs, hmore, hmoreConstants, hpushed⟩
          rw [← SpelledConstant.isWide_eq hconstant] at hleft
          exact ⟨c, _, mid, _, left, SpelledConstant.read_eq_ok_iff.2 ⟨s, hs, hconstant⟩, hpush,
            hleft, hrest⟩

/-- **A pool is read where its constants are spelled.** Reading it is reading all spellings,
decoding the texts, and pushing what comes of that. -/
theorem read_eq_ok_iff {pool : ConstantPool} {bs rest : Bytes} :
    read bs = .ok (pool, rest)
      ↔ ∃ spelled cs, SpelledConstant.readAll bs = .ok (spelled, rest)
        ∧ List.Forall₂ (fun s c => constant? s = some c) spelled cs ∧ Pushed empty cs pool := by
  unfold read SpelledConstant.readAll
  simp only [Reader.bind_eq_ok]
  constructor
  · rintro ⟨count, mid, hcount, h⟩
    split at h
    · cases h
    · next hne =>
      -- The slots are filled by the constants that the spellings stand for, one after the other.
      obtain ⟨spelled, cs, hspelled, hconstants, hpushed⟩ := readSlots_eq_ok_iff.1 h
      exact ⟨spelled, cs, ⟨count, mid, hcount, by rwa [if_neg hne]⟩, hconstants, hpushed⟩
  · rintro ⟨spelled, cs, ⟨count, mid, hcount, h⟩, hconstants, hpushed⟩
    split at h
    · cases h
    · next hne =>
      refine ⟨count, mid, hcount, ?_⟩
      rw [if_neg hne]
      exact readSlots_eq_ok_iff.2 ⟨spelled, cs, h, hconstants, hpushed⟩

/-- **Every pool is made of some constants**, one after the other: those that were read, and those
that were interned. -/
theorem Reachable.exists_pushed {pool : ConstantPool} (h : Reachable pool) :
    ∃ cs, Pushed ConstantPool.empty cs pool := by
  induction h with
  | empty => exact ⟨[], .nil _⟩
  | read h =>
    obtain ⟨_, cs, _, _, hpushed⟩ := read_eq_ok_iff.1 h
    exact ⟨cs, hpushed⟩
  | @intern pool _ c hc ih =>
    obtain ⟨cs, hpushed⟩ := ih
    rcases after_intern_cases c pool with hsame | ⟨i, next, h, hnew⟩
    · rw [hsame]
      exact ⟨cs, hpushed⟩
    · rw [hnew]
      exact ⟨cs ++ [c], hpushed.snoc hc h⟩

/-- Slot 0 never holds a constant. -/
theorem Reachable.get_zero {pool : ConstantPool} (h : Reachable pool) {c : Constant} :
    pool.get 0 ≠ .ok c := by
  obtain ⟨cs, hpushed⟩ := h.exists_pushed
  have hslot : pool.slots[0]? = some .unusable := by
    rw [← Array.getElem?_toList, hpushed.slots]
    rfl
  intro hget
  obtain ⟨hc, hne⟩ := get_eq_ok.1 hget
  exact hne (Option.some.inj (hc.symm.trans hslot))

/-! ## Written pools

A pool is written slot by slot, where the second slot of a wide constant has nothing to write. So
what is written are the constants. -/

/-- The written forms of constants, one behind the other. -/
def constantBytes (cs : List Constant) : Except ClassError Bytes := do
  let parts ← cs.mapM Constant.bytes
  return parts.flatten

/-- Written constants are the first one and the others behind it. Either may fail. The bytes of the
two parts stand in a row. -/
theorem constantBytes_cons_eq_ok {c : Constant} {cs : List Constant} {bs : Bytes} :
    constantBytes (c :: cs) = .ok bs
      ↔ ∃ first rest, c.bytes = .ok first ∧ constantBytes cs = .ok rest ∧ bs = first ++ rest := by
  unfold constantBytes
  simp only [bind_eq_ok, mapM_eq_ok, List.forall₂_cons_left_iff]
  constructor
  · rintro ⟨parts, ⟨first, more, hfirst, hmore, rfl⟩, hend⟩
    cases hend
    exact ⟨first, more.flatten, hfirst, ⟨more, hmore, rfl⟩, List.flatten_cons⟩
  · rintro ⟨first, rest, hfirst, ⟨more, hmore, hend⟩, rfl⟩
    cases hend
    exact ⟨first :: more, ⟨first, more, hfirst, hmore, rfl⟩, rfl⟩

/-- An unusable slot is not written. -/
theorem constantBytes_unusable (cs : List Constant) :
    constantBytes (.unusable :: cs) = constantBytes cs := by
  unfold constantBytes
  rw [List.mapM_cons]
  show (cs.mapM Constant.bytes >>= fun parts => pure ([] :: parts)) >>= _ = _
  cases cs.mapM Constant.bytes <;> rfl

/-- Of the slots that a constant takes, the first is written. The second one is left out. An
unusable slot is written as nothing. -/
theorem constantBytes_slotsOf {cs : List Constant} {bs : Bytes} :
    constantBytes (cs.flatMap slotsOf) = .ok bs ↔ constantBytes cs = .ok bs := by
  induction cs generalizing bs with
  | nil => rfl
  | cons c cs ih =>
    have hslots : slotsOf c = [c] ∨ slotsOf c = [c, .unusable] := by
      unfold slotsOf
      split
      · exact .inr rfl
      · exact .inl rfl
    rw [List.flatMap_cons]
    rcases hslots with hslots | hslots <;>
      simp only [hslots, List.cons_append, List.nil_append, constantBytes_cons_eq_ok,
        constantBytes_unusable, ih]

section Written

variable {pool : ConstantPool} {cs : List Constant}

/-- A pool has one slot more than its constants take, since slot 0 holds none. -/
theorem Pushed.size_eq (h : Pushed empty cs pool) {spelled : List SpelledConstant}
    (hconstants : List.Forall₂ (fun s c => constant? s = some c) spelled cs) :
    pool.size = SpelledConstant.slotCount spelled + 1 := by
  rw [SpelledConstant.slotCount_eq hconstants, size, ← Array.length_toList, h.slots]
  exact List.length_cons

/-- **What is written for a pool** are the constants that it is made of. The slots of a consistent
pool can be counted in a word. -/
theorem bytes_eq_ok_iff (hpool : pool.Consistent) (h : Pushed empty cs pool) {bs : Bytes} :
    pool.bytes = .ok bs ↔ ∃ constants, constantBytes cs = .ok constants
      ∧ bs = Bytes.word16 (UInt16.ofNat pool.size) ++ constants := by
  have hsize : pool.size < 65536 := Nat.lt_succ_of_le hpool.size_le
  -- Only constants are written; the slots behind wide ones have no form of their own.
  have hslots : constantBytes pool.slots.toList = constantBytes (cs.flatMap slotsOf) := by
    rw [h.slots]
    exact constantBytes_unusable _
  have hbytes : pool.bytes = do
      let constants ← constantBytes pool.slots.toList
      return Bytes.word16 (UInt16.ofNat pool.size) ++ constants := by
    unfold bytes constantBytes
    rw [if_pos hsize]
    cases pool.slots.toList.mapM Constant.bytes <;> rfl
  rw [hbytes, hslots, bind_eq_ok]
  constructor
  · rintro ⟨constants, hconstants, hend⟩
    cases hend
    exact ⟨constants, constantBytes_slotsOf.1 hconstants, rfl⟩
  · rintro ⟨constants, hconstants, rfl⟩
    exact ⟨constants, constantBytes_slotsOf.2 hconstants, rfl⟩

/-- **The written form of a pool is read back** as the spellings of its constants. They may be
others than those it was read from. -/
theorem readsBack_readAll (hpool : pool.Consistent) (h : Pushed empty cs pool) {bs : Bytes}
    (hbytes : pool.bytes = .ok bs) : ReadsBack SpelledConstant.readAll bs (cs.map spell) := by
  obtain ⟨constants, hconstants, rfl⟩ := (bytes_eq_ok_iff hpool h).1 hbytes
  obtain ⟨parts, hparts, hend⟩ := bind_eq_ok.1 hconstants
  cases hend
  have hsize := hpool.size_le
  have hcount := h.size_eq (SpelledConstant.forall₂_spell cs)
  have hword : (UInt16.ofNat pool.size).toNat = pool.size :=
    UInt16.toNat_ofNat_of_lt' (show _ < 65536 by omega)
  have hne : UInt16.ofNat pool.size ≠ 0 := by
    intro hzero
    rw [hzero] at hword
    have hnat : (0 : UInt16).toNat = 0 := rfl
    omega
  refine (ReadsBack.word16 _).bind ?_
  rw [if_neg hne, hword, hcount, Nat.add_sub_cancel]
  exact SpelledConstant.readsBack_readSlots h.usable hparts

/-- Constants in their canonical spellings are written as they are spelled. -/
theorem bytes_of_isCanonical {spelled : List SpelledConstant} {bs : Bytes}
    (hpool : pool.Consistent) (h : Pushed empty cs pool)
    (hconstants : List.Forall₂ (fun s c => constant? s = some c) spelled cs)
    (hcanonical : ∀ s ∈ spelled, s.IsCanonical)
    (hbytes : SpelledConstant.allBytes spelled = .ok bs) : pool.bytes = .ok bs := by
  obtain ⟨parts, hparts, hend⟩ := bind_eq_ok.1 hbytes
  cases hend
  have hsame := SpelledConstant.mapM_bytes_of_isCanonical hconstants hcanonical hparts
  rw [← h.size_eq hconstants]
  exact (bytes_eq_ok_iff hpool h).2 ⟨_, bind_eq_ok.2 ⟨parts, hsame, rfl⟩, rfl⟩

end Written
end ConstantPool
end ClassLoom
