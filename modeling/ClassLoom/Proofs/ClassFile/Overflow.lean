import ClassLoom.Proofs.ClassFile.FirstSlots

/-!
# What a class that was read can still fail on

Everything that is read fits where it stands in the file, so it fits when it is written again:
texts are written no longer than they were spelled, and counts and lengths are those of the
file. All that can be too small is the pool, where symbols get slots of their own that had
shared one (`OnlyOverflows`).

* `IndexedBody.onlyOverflows`: everything behind the pool;
* `writable_of_allBytes`: the pool itself.
-/

namespace ClassLoom

open ConstantPool

namespace ConstantPool

/-- Whether all constants of a pool can be written. -/
def Writable (pool : ConstantPool) : Prop := ∀ c ∈ pool.slots.toList, ∃ bs, c.bytes = .ok bs

/-- The slots of a constant are its own and perhaps an unusable one behind it. -/
theorem mem_slotsOf {c d : Constant} (h : d ∈ slotsOf c) : d = c ∨ d = .unusable := by
  unfold slotsOf at h
  split at h
  · exact List.mem_pair.1 h
  · exact .inl (List.mem_singleton.1 h)

end ConstantPool

/-- Whether a text is short enough to be a constant. -/
def WritableText (text : String) : Prop := ∃ bs, (Constant.utf8 text).bytes = .ok bs

namespace Interning

/-- Whether a computation fails on nothing but an overflow of the pool, and interns only what
can be written. -/
def OnlyOverflows {α : Type} (x : Interning α) : Prop := ∀ pool, pool.Writable →
  (∀ a pool', x pool = .ok a pool' → pool'.Writable)
    ∧ ∀ e pool', x pool = .error e pool' → e = .poolOverflow

namespace OnlyOverflows

variable {α β : Type}

/-- A result fails on nothing. -/
theorem pure (a : α) : OnlyOverflows (pure a : Interning α) := by
  intro pool hpool
  constructor
  · intro b pool' h
    cases h
    exact hpool
  · intro e pool' h
    cases h

theorem lift {x : Except ClassError α} {a : α} (hx : x = .ok a) :
    OnlyOverflows (liftM x : Interning α) := by
  subst hx
  exact pure a

/-- Two computations fail on nothing but an overflow if neither does. What the first one does to the
pool keeps it writable for the second. -/
theorem bind {x : Interning α} {f : α → Interning β} (hx : OnlyOverflows x)
    (hf : ∀ a, OnlyOverflows (f a)) : OnlyOverflows (x >>= f) := by
  intro pool hpool
  obtain ⟨hok, herror⟩ := hx pool hpool
  show (∀ b pool', EStateM.bind x f pool = .ok b pool' → _)
    ∧ ∀ e pool', EStateM.bind x f pool = .error e pool' → _
  unfold EStateM.bind
  cases h : x pool with
  | ok a mid => exact hf a mid (hok a mid h)
  | error e mid =>
    constructor
    · intro b pool' h'
      cases h'
    · intro e' pool' h'
      cases h'
      exact herror e mid h

/-- So it is with a traversal. -/
theorem mapM {f : α → Interning β} {xs : List α} (h : ∀ x ∈ xs, OnlyOverflows (f x)) :
    OnlyOverflows (xs.mapM f) := by
  induction xs with
  | nil =>
    rw [List.mapM_nil]
    exact pure []
  | cons x xs ih =>
    obtain ⟨hx, hxs⟩ := List.forall_mem_cons.1 h
    rw [List.mapM_cons]
    exact hx.bind fun y => (ih hxs).bind fun ys => pure _

/-- What can be written can be interned, unless there is no slot left. The pool stays writable, as
the new constant can be written and all others are as they were. -/
theorem intern {c : Constant} (hc : ∃ bs, c.bytes = .ok bs) : OnlyOverflows (intern c) := by
  intro pool hpool
  rw [intern_eq]
  cases pool.index[c]? with
  | some found => exact pure found pool hpool
  | none =>
    -- A new constant can be written, and so can the slot behind it. The only failure is that of the
    -- pool.
    constructor
    · intro i pool' h d hd
      obtain ⟨_, _, hslots, _⟩ := push_eq_ok h
      rw [hslots] at hd
      rcases List.mem_append.1 hd with hd | hd
      · exact hpool d hd
      · rcases mem_slotsOf hd with rfl | rfl
        · exact hc
        · exact ⟨[], rfl⟩
    · intro e pool' h
      exact push_overflows h

/-- A text that is short enough can be interned, unless there is no slot left. -/
theorem internUtf8 {text : String} (h : WritableText text) : OnlyOverflows (internUtf8 text) := intern h

theorem internClass {name : String} (h : WritableText name) : OnlyOverflows (internClass name) :=
  (internUtf8 h).bind fun _ => intern ⟨_, rfl⟩

end OnlyOverflows
end Interning

open Interning (OnlyOverflows)

namespace ConstantPool

variable {pool : ConstantPool} {i : UInt16}

/-- A text of a pool that can be written is short enough. -/
theorem Writable.text (h : pool.Writable) {text : String} (htext : pool.getUtf8 i = .ok text) :
    WritableText text := by
  obtain ⟨hslot, _⟩ := get_eq_ok.1 (getUtf8_eq_ok.1 htext)
  rw [← Array.getElem?_toList] at hslot
  exact h _ (List.mem_of_getElem? hslot)

theorem Writable.className (h : pool.Writable) {name : String} (hname : pool.getClassName i = .ok name) :
    WritableText name := by
  obtain ⟨_, _, htext⟩ := getClassName_eq_ok.1 hname
  exact h.text htext

/-- A pool whose constants can be written can be. -/
theorem Writable.bytes (h : pool.Writable) (hpool : pool.Consistent) : ∃ bs, pool.bytes = .ok bs := by
  have hsize : pool.size < 65536 := Nat.lt_succ_of_le hpool.size_le
  obtain ⟨parts, hparts⟩ := exists_mapM_ok h
  unfold ConstantPool.bytes
  rw [if_pos hsize]
  exact ⟨_, bind_eq_ok.2 ⟨parts, hparts, rfl⟩⟩

/-- **The constants of a pool that was read can be written.** Each was read from bytes, with a
length that fits into its field. -/
theorem writable_of_allBytes {spelled : List SpelledConstant} {cs : List Constant} {bs : Bytes}
    (hbytes : SpelledConstant.allBytes spelled = .ok bs)
    (hspelled : List.Forall₂ (fun s c => SpelledConstant.constant? s = some c) spelled cs)
    (hpushed : Pushed .empty cs pool) : pool.Writable := by
  obtain ⟨parts, hparts, _⟩ := bind_eq_ok.1 hbytes
  have hfits : ∀ c ∈ cs, ∃ bs, c.bytes = .ok bs := by
    intro c hc
    obtain ⟨s, hs, hconstant⟩ := exists_of_mem_right hspelled hc
    obtain ⟨part, hpart⟩ := exists_ok_of_mapM hparts s hs
    obtain ⟨written, hwritten, _⟩ := SpelledConstant.exists_written hconstant hpart
    exact ⟨written, hwritten⟩
  -- What is in a slot is the constant in front, one that has been pushed, or the second half of a
  -- wide one.
  intro c hc
  rw [hpushed.slots] at hc
  rcases List.mem_append.1 hc with hc | hc
  · rw [List.mem_singleton.1 hc]
    exact ⟨[], rfl⟩
  · obtain ⟨d, hd, hc⟩ := List.mem_flatMap.1 hc
    rcases mem_slotsOf hc with rfl | rfl
    · exact hfits _ hd
    · exact ⟨[], rfl⟩

end ConstantPool

/-! ## Classes

A class that was read has only texts that fit and tables that fit, since they were read from a file.
What is left to fail is the room in the pool. -/

/-- Tables of what was read fit when they are written again, since they have as many entries as
then. -/
theorem OnlyOverflows.table {α ρ : Type} {write : α → Interning Bytes}
    {form : ρ → Except ClassError Bytes} {D : ρ → α → Prop} {xs : List ρ} {items : List α}
    {bs : Bytes} (hitems : List.Forall₂ D xs items) (hform : tableForm form xs = .ok bs)
    (h : ∀ x a bs, D x a → form x = .ok bs → OnlyOverflows (write a)) :
    OnlyOverflows (do
      let count ← Bytes.count16 items.length
      let parts ← items.mapM write
      return count ++ parts.flatten) := by
  obtain ⟨count, hcount, hform⟩ := bind_eq_ok.1 hform
  obtain ⟨parts, hparts, _⟩ := bind_eq_ok.1 hform
  rw [hitems.length_eq] at hcount
  refine (OnlyOverflows.lift hcount).bind fun _ => (OnlyOverflows.mapM fun a ha => ?_).bind fun _ =>
    .pure _
  obtain ⟨x, hx, hxa⟩ := exists_of_mem_right hitems ha
  obtain ⟨part, hpart⟩ := exists_ok_of_mapM hparts x hx
  exact h x a part hxa hpart

variable {pool : ConstantPool}

/-- An attribute that was read has a name that can be written, and a payload whose length fits. -/
theorem IndexedAttribute.onlyOverflows (hpool : pool.Writable) (x : IndexedAttribute) (a : Attribute)
    (bs : Bytes) (hdenotes : x.Denotes pool a) (hform : x.bytes = .ok bs) :
    OnlyOverflows a.bytes := by
  refine (OnlyOverflows.internUtf8 (hpool.text hdenotes.name)).bind fun _ => ?_
  unfold bytes at hform
  rw [hdenotes.info] at hform
  split at hform
  · next hlt =>
    rw [if_pos hlt]
    exact .pure _
  · cases hform

/-- So it is with members. -/
theorem IndexedMember.onlyOverflows (hpool : pool.Writable) (x : IndexedMember) (m : Member)
    (bs : Bytes) (hdenotes : x.Denotes pool m) (hform : x.bytes = .ok bs) :
    OnlyOverflows m.bytes := by
  obtain ⟨attributes, hattributes, _⟩ := bind_eq_ok.1 hform
  exact (OnlyOverflows.internUtf8 (hpool.text hdenotes.name)).bind fun _ =>
    (OnlyOverflows.internUtf8 (hpool.text hdenotes.descriptor)).bind fun _ =>
      (OnlyOverflows.table hdenotes.attributes hattributes
        (IndexedAttribute.onlyOverflows hpool)).bind fun _ => .pure _

/-- **What was read behind a pool overflows at most the pool** when it is written again. Names that
stand in later slots are interned anew, and this is what may take slots. -/
theorem IndexedBody.onlyOverflows (hpool : pool.Writable) (x : IndexedBody) (c : ClassFile)
    (bs : Bytes) (hdenotes : x.Denotes pool c) (hform : x.bytes = .ok bs) :
    OnlyOverflows c.bodyBytes := by
  obtain ⟨interfaces, hinterfaces, hform⟩ := bind_eq_ok.1 hform
  obtain ⟨fields, hfields, hform⟩ := bind_eq_ok.1 hform
  obtain ⟨methods, hmethods, hform⟩ := bind_eq_ok.1 hform
  obtain ⟨attributes, hattributes, _⟩ := bind_eq_ok.1 hform
  -- The symbols of a class that was read can be written, since they were in the pool that was read.
  have hsuperName : OnlyOverflows (ClassFile.superIndex c.superName) := by
    have hsuper := hdenotes.superName
    cases h : c.superName with
    | none => exact .pure _
    | some name =>
      rw [h] at hsuper
      exact .internClass (hpool.className hsuper.2)
  have hinterfaceBytes : OnlyOverflows (ClassFile.interfaceBytes c.interfaces) := by
    obtain ⟨count, hcount, _⟩ := (tableForm_word16 _).1 hinterfaces
    rw [hdenotes.interfaces.length_eq] at hcount
    refine (OnlyOverflows.lift hcount).bind fun _ =>
      (OnlyOverflows.mapM fun name hname => ?_).bind fun _ => .pure _
    obtain ⟨i, _, hi⟩ := exists_of_mem_right hdenotes.interfaces hname
    exact .internClass (hpool.className hi)
  exact (OnlyOverflows.internClass (hpool.className hdenotes.name)).bind fun _ =>
    hsuperName.bind fun _ => hinterfaceBytes.bind fun _ =>
      (OnlyOverflows.table hdenotes.fields hfields (IndexedMember.onlyOverflows hpool)).bind fun _ =>
        (OnlyOverflows.table hdenotes.methods hmethods
          (IndexedMember.onlyOverflows hpool)).bind fun _ =>
            (OnlyOverflows.table hdenotes.attributes hattributes
              (IndexedAttribute.onlyOverflows hpool)).bind fun _ => .pure _

end ClassLoom
