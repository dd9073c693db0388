import ClassLoom.Proofs.ClassFile.Indexed
import ClassLoom.Proofs.Written

/-!
# Symbols in their first slots

A symbol is written as the index of the first slot that holds it. So what is written for a class
is the written form of an indexed class whose indices are all of first slots, and an indexed
class of that kind is what is written for the class that it denotes, with nothing added to the
pool (`Indexes`).

* `Indexes.table`: entries one after the other;
* `IndexedBody.indexes`: everything behind the pool.
-/

namespace ClassLoom

open ConstantPool
open Interning (Appends)

namespace ConstantPool

/-! ## First slots

Names are interned when a class is written, and so they get the first slots that hold them. Reading
takes any slot that does. Between the two lies the difference between a class that is reproduced as
it was and one that is not. -/

/-- Whether a slot is the first one that holds what it does. -/
def IsFirst (pool : ConstantPool) (i : UInt16) : Prop := ∃ c, pool.FirstAt c i.toNat

/-- Whether the slot of a class constant is the first one of its kind, and the text that it names
is in a first slot too. -/
def IsFirstClass (pool : ConstantPool) (i : UInt16) : Prop :=
  ∃ text, pool.FirstAt (.classInfo text) i.toNat ∧ pool.IsFirst text

variable {pool : ConstantPool} {i : UInt16}

/-- The constant in a first slot is the one whose first slot it is. -/
theorem FirstAt.eq_of_getElem? {c c' : Constant} {n : Nat} (h : pool.FirstAt c n)
    (hc : pool.slots[n]? = some c') : c = c' := by
  rw [h.1] at hc
  exact Option.some.inj hc

/-- An index is the first of a text if it is a first one and stands for that text. -/
theorem firstAt_utf8_iff {text : String} :
    pool.FirstAt (.utf8 text) i.toNat ↔ pool.IsFirst i ∧ pool.getUtf8 i = .ok text := by
  rw [getUtf8_eq_ok, get_eq_ok]
  constructor
  · intro h
    exact ⟨⟨_, h⟩, h.1, by simp⟩
  · rintro ⟨⟨c, h⟩, hslot, _⟩
    rwa [h.eq_of_getElem? hslot] at h

/-- An index is the first of a class if it is a first one, names a first text, and stands for that
class. -/
theorem firstAt_classInfo_iff {name : String} :
    (∃ text, pool.FirstAt (.utf8 name) text.toNat ∧ pool.FirstAt (.classInfo text) i.toNat)
      ↔ pool.IsFirstClass i ∧ pool.getClassName i = .ok name := by
  rw [getClassName_eq_ok]
  constructor
  · rintro ⟨text, htext, hi⟩
    obtain ⟨hfirst, hname⟩ := firstAt_utf8_iff.1 htext
    exact ⟨⟨text, hi, hfirst⟩, text, get_eq_ok.2 ⟨hi.1, by simp⟩, hname⟩
  · rintro ⟨⟨text, hi, hfirst⟩, text', hget, hname⟩
    have hsame := hi.eq_of_getElem? (get_eq_ok.1 hget).1
    cases hsame
    exact ⟨text, firstAt_utf8_iff.2 ⟨hfirst, hname⟩, hi⟩

end ConstantPool

/-! ## Written forms with first indices

A value is written as one that keeps indices is written, with indices that are the first ones in the
pool behind the writing. `Indexes` says so of a computation, and also that it gives these bytes
whenever there is such a value to begin with. -/

/-- Whether what is written for a value is the written form of one that keeps its indices, with
all of them first: one is found for everything that is written, and everything in first slots
already is written as it stands, in the same pool. -/
structure Indexes {α ρ ω : Type} (write : α → Interning ω) (form : ρ → Except ClassError ω)
    (P : ConstantPool → ρ → α → Prop) : Prop where
  appends : ∀ a, Appends (write a)
  grown : ∀ {old new : ConstantPool} {x : ρ} {a : α}, Grown old new → P old x a → P new x a
  exists_form : ∀ {pool pool' : ConstantPool} {a : α} {w : ω}, Reachable pool →
    write a pool = .ok w pool' → ∃ x, form x = .ok w ∧ P pool' x a
  same : ∀ {pool : ConstantPool} {x : ρ} {a : α} {w : ω}, Reachable pool → P pool x a →
    form x = .ok w → write a pool = .ok w pool

namespace Indexes

variable {α ρ ω : Type} {form : ρ → Except ClassError ω} {write : α → Interning ω}
  {P : ConstantPool → ρ → α → Prop}

/-- Values written one after the other. The pool grows in between, and the indices of those before
stay first. -/
theorem mapM (h : Indexes write form P) :
    Indexes (fun items : List α => items.mapM write) (fun xs => xs.mapM form)
      (fun pool => List.Forall₂ (P pool)) where
  appends items := .mapM fun a _ => h.appends a
  grown hgrown hitems := hitems.imp fun _ _ => h.grown hgrown
  exists_form {pool pool' items ws} hpool hwrite := by
    induction items generalizing pool ws with
    | nil =>
      rw [List.mapM_nil] at hwrite
      obtain ⟨rfl, rfl⟩ := Interning.pure_eq_ok.1 hwrite
      exact ⟨[], rfl, .nil⟩
    | cons a items ih =>
      rw [List.mapM_cons] at hwrite
      obtain ⟨w, mid, hw, hwrite⟩ := Interning.bind_eq_ok.1 hwrite
      obtain ⟨more, last, hmore, hend⟩ := Interning.bind_eq_ok.1 hwrite
      obtain ⟨rfl, rfl⟩ := Interning.pure_eq_ok.1 hend
      have hmid := (h.appends a).reachable_of_ok hpool hw
      -- What is first when its entry is written stays first while the others are.
      have hgrown := (Appends.mapM fun a _ => h.appends a).grown_of_ok hmore
      obtain ⟨x, hx, ha⟩ := h.exists_form hpool hw
      obtain ⟨xs, hxs, hitems⟩ := ih hmid hmore
      refine ⟨x :: xs, ?_, .cons (h.grown hgrown ha) hitems⟩
      rw [mapM_eq_ok] at hxs ⊢
      exact .cons hx hxs
  same {pool xs items ws} hpool hitems hforms := by
    rw [mapM_eq_ok] at hforms
    induction hitems generalizing ws with
    | nil =>
      cases hforms
      rfl
    | cons ha _ ih =>
      obtain ⟨w, more, hw, hmore, rfl⟩ := List.forall₂_cons_left_iff.1 hforms
      rw [List.mapM_cons]
      exact Interning.bind_eq_ok.2 ⟨w, pool, h.same hpool ha hw,
        Interning.bind_eq_ok.2 ⟨more, pool, ih hmore, rfl⟩⟩

/-- **Tables are written with first indices** if their entries are. The count is not looked up. Both
ways need this: what is written has a form with first indices, and a form with first indices is
written. -/
theorem table {write : α → Interning Bytes} {form : ρ → Except ClassError Bytes}
    (h : Indexes write form P) :
    Indexes (fun items : List α => do
      let count ← Bytes.count16 items.length
      let parts ← items.mapM write
      return count ++ parts.flatten) (tableForm form) (fun pool => List.Forall₂ (P pool)) where
  appends items := (Appends.lift _).bind fun _ => (h.mapM.appends items).bind fun _ => .pure _
  grown := h.mapM.grown
  -- The count is written before the items, but it is that of the indices as well.
  exists_form {pool pool' items w} hpool hwrite := by
    obtain ⟨count, hcount, hwrite⟩ := Interning.lift_bind_eq_ok.1 hwrite
    obtain ⟨parts, mid, hparts, hend⟩ := Interning.bind_eq_ok.1 hwrite
    obtain ⟨rfl, rfl⟩ := Interning.pure_eq_ok.1 hend
    obtain ⟨xs, hxs, hitems⟩ := h.mapM.exists_form hpool hparts
    refine ⟨xs, ?_, hitems⟩
    unfold tableForm
    rw [hitems.length_eq]
    exact bind_eq_ok.2 ⟨count, hcount, bind_eq_ok.2 ⟨parts, hxs, rfl⟩⟩
  same {pool xs items w} hpool hitems hform := by
    obtain ⟨count, hcount, hform⟩ := bind_eq_ok.1 hform
    obtain ⟨parts, hparts, hend⟩ := bind_eq_ok.1 hform
    cases hend
    rw [hitems.length_eq] at hcount
    exact Interning.lift_bind_eq_ok.2 ⟨count, hcount, Interning.bind_eq_ok.2
      ⟨parts, pool, h.mapM.same hpool hitems hparts, rfl⟩⟩

/-- The same, with what is asked of the indices and what of the values apart. Both can then be used
on their own. -/
theorem table_and {write : α → Interning Bytes} {form : ρ → Except ClassError Bytes}
    {F : ConstantPool → ρ → Prop} {D : ConstantPool → ρ → α → Prop}
    (h : Indexes write form (fun pool x a => F pool x ∧ D pool x a)) :
    Indexes (fun items : List α => do
      let count ← Bytes.count16 items.length
      let parts ← items.mapM write
      return count ++ parts.flatten) (tableForm form)
      (fun pool xs items => (∀ x ∈ xs, F pool x) ∧ List.Forall₂ (D pool) xs items) := by
  have htable := h.table
  have hsplit : (fun pool => List.Forall₂ (fun x a => F pool x ∧ D pool x a))
      = fun pool xs items => (∀ x ∈ xs, F pool x) ∧ List.Forall₂ (D pool) xs items := by
    funext pool xs items
    exact propext (List.forall₂_and_left xs items)
  rwa [hsplit] at htable

end Indexes

/-! ## Symbols

A symbol is interned to its first slot, and in a pool that has it there it is interned to that slot
with nothing added. Everything else that a class writes is made of symbols. -/

namespace ConstantPool

/-- Texts are written as their first slots. -/
theorem indexes_utf8 : Indexes internUtf8 (fun i => .ok i)
    (fun pool i text => pool.IsFirst i ∧ pool.getUtf8 i = .ok text) where
  appends := appends_internUtf8
  grown hgrown h := firstAt_utf8_iff.1 ((firstAt_utf8_iff.2 h).grown hgrown)
  exists_form hpool h :=
    ⟨_, rfl, firstAt_utf8_iff.1 (firstAt_of_intern hpool.consistent (by simp) h)⟩
  same hpool h hi := by
    cases hi
    exact intern_of_firstAt hpool.consistent (by simp) (firstAt_utf8_iff.2 h)

/-- Classes are written as their first slots, of which the texts are in first slots as well. A class
entry names its text by index, so there are two look-ups. -/
theorem indexes_class : Indexes internClass (fun i => .ok i)
    (fun pool i name => pool.IsFirstClass i ∧ pool.getClassName i = .ok name) where
  appends := appends_internClass
  grown hgrown h := by
    obtain ⟨text, htext, hi⟩ := firstAt_classInfo_iff.2 h
    exact firstAt_classInfo_iff.1 ⟨text, htext.grown hgrown, hi.grown hgrown⟩
  -- The text is interned before the class and stays the first of its kind.
  exists_form {pool pool' name i} hpool h := by
    obtain ⟨text, mid, htext, h⟩ := Interning.bind_eq_ok.1 h
    have hmid := (appends_internUtf8 name).reachable_of_ok hpool htext
    have hgrown := (appends_intern (by simp)).grown_of_ok h
    have hfirst := firstAt_of_intern hpool.consistent (by simp) htext
    have hi := firstAt_of_intern hmid.consistent (by simp) h
    exact ⟨i, rfl, firstAt_classInfo_iff.1 ⟨text, hfirst.grown hgrown, hi⟩⟩
  same {pool i name w} hpool h hi := by
    cases hi
    obtain ⟨text, htext, hi⟩ := firstAt_classInfo_iff.2 h
    exact Interning.bind_eq_ok.2 ⟨text, pool,
      intern_of_firstAt hpool.consistent (by simp) htext,
      intern_of_firstAt hpool.consistent (by simp) hi⟩

end ConstantPool

/-! ## Attributes and members

Payloads are copied, so only names and descriptors have to be in their first slots. -/

/-- Whether the index of the name is a first one. -/
def IndexedAttribute.IsFirst (pool : ConstantPool) (x : IndexedAttribute) : Prop :=
  pool.IsFirst x.name

/-- **Attributes are written with first indices.** The name is all that they look up. Its payload is
written as it is. -/
theorem IndexedAttribute.indexes : Indexes Attribute.bytes IndexedAttribute.bytes
    (fun pool x a => x.IsFirst pool ∧ x.Denotes pool a) where
  appends := Attribute.appends_bytes
  grown := by
    rintro old new x a hgrown ⟨hfirst, hname, hinfo⟩
    obtain ⟨hfirst, hname⟩ := indexes_utf8.grown hgrown ⟨hfirst, hname⟩
    exact ⟨hfirst, hname, hinfo⟩
  exists_form {pool pool' a w} hpool h := by
    obtain ⟨name, mid, hname, h⟩ := Interning.bind_eq_ok.1 h
    split at h
    · next hlt =>
      obtain ⟨rfl, rfl⟩ := Interning.pure_eq_ok.1 h
      obtain ⟨_, hform, hfirst, htext⟩ := indexes_utf8.exists_form hpool hname
      cases hform
      exact ⟨⟨name, a.info⟩, by rw [bytes, if_pos hlt], hfirst, htext, rfl⟩
    · cases h
  -- A name that is in its first slot is given that slot again.
  same := by
    rintro pool x ⟨name, info⟩ w hpool ⟨hfirst, hname, rfl⟩ hform
    unfold bytes at hform
    split at hform
    · next hlt =>
      cases hform
      refine Interning.bind_eq_ok.2 ⟨x.name, pool, indexes_utf8.same hpool ⟨hfirst, hname⟩ rfl, ?_⟩
      rw [if_pos hlt]
      rfl
    · cases hform

theorem IndexedAttribute.indexes_table : Indexes Attribute.tableBytes
    (tableForm IndexedAttribute.bytes) (fun pool xs attributes =>
      (∀ x ∈ xs, x.IsFirst pool) ∧ List.Forall₂ (Denotes pool) xs attributes) :=
  indexes.table_and

/-- Whether the indices of all symbols are first ones. -/
structure IndexedMember.IsFirst (pool : ConstantPool) (x : IndexedMember) : Prop where
  name : pool.IsFirst x.name
  descriptor : pool.IsFirst x.descriptor
  attributes : ∀ a ∈ x.attributes, a.IsFirst pool

/-- **Members are written with first indices**: of the name, of the descriptor, and of their
attributes. -/
theorem IndexedMember.indexes : Indexes Member.bytes IndexedMember.bytes
    (fun pool x m => x.IsFirst pool ∧ x.Denotes pool m) where
  appends m := (appends_internUtf8 _).bind fun _ => (appends_internUtf8 _).bind fun _ =>
    (Attribute.appends_tableBytes _).bind fun _ => .pure _
  grown := by
    rintro old new x m hgrown ⟨hfirst, hdenotes⟩
    have hname := indexes_utf8.grown hgrown ⟨hfirst.name, hdenotes.name⟩
    have hdescriptor := indexes_utf8.grown hgrown ⟨hfirst.descriptor, hdenotes.descriptor⟩
    have hattributes := IndexedAttribute.indexes_table.grown hgrown
      ⟨hfirst.attributes, hdenotes.attributes⟩
    exact ⟨⟨hname.1, hdescriptor.1, hattributes.1⟩, hdenotes.access, hname.2, hdescriptor.2,
      hattributes.2⟩
  exists_form {pool pool' m w} hpool h := by
    obtain ⟨name, mid, hname, h⟩ := Interning.bind_eq_ok.1 h
    obtain ⟨descriptor, mid', hdescriptor, h⟩ := Interning.bind_eq_ok.1 h
    obtain ⟨attributes, last, hattributes, h⟩ := Interning.bind_eq_ok.1 h
    obtain ⟨rfl, rfl⟩ := Interning.pure_eq_ok.1 h
    have hmid := (appends_internUtf8 _).reachable_of_ok hpool hname
    have hmid' := (appends_internUtf8 _).reachable_of_ok hmid hdescriptor
    have hgrown := (appends_internUtf8 _).grown_of_ok hdescriptor
    have hgrown' := (Attribute.appends_tableBytes _).grown_of_ok hattributes
    obtain ⟨_, hform, hnameFirst⟩ := indexes_utf8.exists_form hpool hname
    cases hform
    obtain ⟨_, hform, hdescriptorFirst⟩ := indexes_utf8.exists_form hmid hdescriptor
    cases hform
    obtain ⟨xs, hxs, hall⟩ := IndexedAttribute.indexes_table.exists_form hmid' hattributes
    -- Slots that were first when a symbol was interned still are in the pool at the end.
    have hnameLast := indexes_utf8.grown (hgrown.trans hgrown') hnameFirst
    have hdescriptorLast := indexes_utf8.grown hgrown' hdescriptorFirst
    exact ⟨⟨m.access, name, descriptor, xs⟩, bind_eq_ok.2 ⟨attributes, hxs, rfl⟩,
      ⟨hnameLast.1, hdescriptorLast.1, hall.1⟩, rfl, hnameLast.2, hdescriptorLast.2, hall.2⟩
  same := by
    rintro pool x ⟨access, name, descriptor, attributes⟩ w hpool ⟨hfirst, hdenotes⟩ hform
    obtain ⟨rfl, hname, hdescriptor, hattributes⟩ := hdenotes
    obtain ⟨attributeBytes, hattributeBytes, hend⟩ := bind_eq_ok.1 hform
    cases hend
    exact Interning.bind_eq_ok.2 ⟨x.name, pool, indexes_utf8.same hpool ⟨hfirst.name, hname⟩ rfl,
      Interning.bind_eq_ok.2 ⟨x.descriptor, pool,
        indexes_utf8.same hpool ⟨hfirst.descriptor, hdescriptor⟩ rfl,
        Interning.bind_eq_ok.2 ⟨attributeBytes, pool, IndexedAttribute.indexes_table.same hpool
          ⟨hfirst.attributes, hattributes⟩ hattributeBytes, rfl⟩⟩⟩

theorem IndexedMember.indexes_table : Indexes Member.tableBytes
    (tableForm IndexedMember.bytes) (fun pool xs members =>
      (∀ x ∈ xs, x.IsFirst pool) ∧ List.Forall₂ (Denotes pool) xs members) :=
  indexes.table_and

/-! ## Everything behind the pool

The parts of a class are written in a certain order, and what comes later may add slots. That
disturbs no first slots, so what was true of an earlier part stays true in the last pool. -/

namespace IndexedBody

theorem appends_interfaceBytes (names : List String) : Appends (ClassFile.interfaceBytes names) :=
  (Appends.lift _).bind fun _ => (Appends.mapM fun name _ => appends_internClass name).bind fun _ =>
    .pure _

theorem mapM_index (xs : List UInt16) :
    xs.mapM (fun i => (.ok i : Except ClassError UInt16)) = .ok xs := by
  rw [mapM_eq_ok, List.forall₂_same]
  exact fun _ _ => rfl

/-- A table of words is written as the words in a row. No word fails to be written. Interfaces are
such a table. -/
theorem tableForm_word16 (ws : List UInt16) {bs : Bytes} :
    tableForm (fun w => .ok (Bytes.word16 w)) ws = .ok bs
      ↔ ∃ count, Bytes.count16 ws.length = .ok count ∧ bs = count ++ ws.flatMap Bytes.word16 := by
  have hwords : ws.mapM (fun w => (.ok (Bytes.word16 w) : Except ClassError Bytes))
      = .ok (ws.map Bytes.word16) := mapM_ok fun _ _ => rfl
  unfold tableForm
  rw [hwords, bind_eq_ok]
  constructor
  · rintro ⟨count, hcount, hend⟩
    cases hend
    exact ⟨count, hcount, by rw [List.flatMap_def]⟩
  · rintro ⟨count, hcount, rfl⟩
    exact ⟨count, hcount, by rw [List.flatMap_def]; rfl⟩

/-- **Interfaces are written with first indices.** They are names in the class, and indices in its
form. -/
theorem indexes_interfaces : Indexes ClassFile.interfaceBytes
    (tableForm fun w => .ok (Bytes.word16 w)) (fun pool xs names =>
      (∀ i ∈ xs, pool.IsFirstClass i)
        ∧ List.Forall₂ (fun i name => pool.getClassName i = .ok name) xs names) where
  appends := appends_interfaceBytes
  grown {old new xs names} hgrown h := by
    rw [← List.forall₂_and_left] at h ⊢
    exact indexes_class.mapM.grown hgrown h
  exists_form {pool pool' names w} hpool h := by
    obtain ⟨count, hcount, h⟩ := Interning.lift_bind_eq_ok.1 h
    obtain ⟨indices, mid, hindices, hend⟩ := Interning.bind_eq_ok.1 h
    obtain ⟨rfl, rfl⟩ := Interning.pure_eq_ok.1 hend
    obtain ⟨xs, hxs, hall⟩ := indexes_class.mapM.exists_form hpool hindices
    -- The indices are their own form, so those that were interned are those that are written.
    rw [mapM_index] at hxs
    cases hxs
    refine ⟨indices, (tableForm_word16 indices).2 ⟨count, ?_, rfl⟩,
      (List.forall₂_and_left _ _).1 hall⟩
    rw [hall.length_eq]
    exact hcount
  same {pool xs names w} hpool h hform := by
    rw [← List.forall₂_and_left] at h
    obtain ⟨count, hcount, rfl⟩ := (tableForm_word16 xs).1 hform
    rw [h.length_eq] at hcount
    refine Interning.lift_bind_eq_ok.2 ⟨count, hcount, Interning.bind_eq_ok.2 ⟨xs, pool, ?_, rfl⟩⟩
    exact indexes_class.mapM.same hpool h (mapM_index xs)

theorem appends_superIndex (superName : Option String) :
    Appends (ClassFile.superIndex superName) := by
  cases superName with
  | none => exact .pure _
  | some name => exact appends_internClass name

/-- **The superclass is written with a first index**, or with zero where there is none. No class
entry is in slot zero. -/
theorem indexes_superName : Indexes ClassFile.superIndex (fun i => .ok i)
    (fun pool i superName => (i ≠ 0 → pool.IsFirstClass i) ∧ DenotesSuper pool i superName) where
  appends := appends_superIndex
  grown {old new i superName} hgrown h := by
    -- With a superclass, the form has the index of its first slot; without one, it has zero.
    cases superName with
    | none =>
      have hzero : i = 0 := h.2
      exact ⟨fun hne => absurd hzero hne, h.2⟩
    | some name =>
      obtain ⟨hfirst, hne, hname⟩ := h
      have hlast := indexes_class.grown hgrown ⟨hfirst hne, hname⟩
      exact ⟨fun _ => hlast.1, hne, hlast.2⟩
  exists_form {pool pool' superName i} hpool h := by
    cases superName with
    | none =>
      obtain ⟨rfl, rfl⟩ := Interning.pure_eq_ok.1 h
      exact ⟨0, rfl, fun hne => absurd rfl hne, rfl⟩
    | some name =>
      obtain ⟨_, hform, hfirst, hname⟩ := indexes_class.exists_form hpool h
      cases hform
      refine ⟨i, rfl, fun _ => hfirst, ?_, hname⟩
      -- Slot 0 holds no constant, and stands for the missing superclass only.
      rintro rfl
      have hpool' := (appends_internClass name).reachable_of_ok hpool h
      obtain ⟨text, hget, _⟩ := getClassName_eq_ok.1 hname
      exact hpool'.get_zero hget
  same {pool i superName w} hpool h hi := by
    cases hi
    cases superName with
    | none =>
      have hzero : i = 0 := h.2
      rw [hzero]
      rfl
    | some name =>
      obtain ⟨hfirst, hne, hname⟩ := h
      exact indexes_class.same hpool ⟨hfirst hne, hname⟩ rfl

/-- Whether the indices of all symbols are first ones, and so are those of the texts that class
constants name. -/
structure IsFirst (pool : ConstantPool) (x : IndexedBody) : Prop where
  name : pool.IsFirstClass x.name
  superName : x.superName ≠ 0 → pool.IsFirstClass x.superName
  interfaces : ∀ i ∈ x.interfaces, pool.IsFirstClass i
  fields : ∀ m ∈ x.fields, m.IsFirst pool
  methods : ∀ m ∈ x.methods, m.IsFirst pool
  attributes : ∀ a ∈ x.attributes, a.IsFirst pool

theorem appends_tableBytes (members : List Member) : Appends (Member.tableBytes members) :=
  IndexedMember.indexes_table.appends members

theorem appends_bodyBytes (c : ClassFile) : Appends c.bodyBytes :=
  (appends_internClass _).bind fun _ => (appends_superIndex _).bind fun _ =>
    (appends_interfaceBytes _).bind fun _ => (appends_tableBytes _).bind fun _ =>
      (appends_tableBytes _).bind fun _ => (Attribute.appends_tableBytes _).bind fun _ => .pure _

/-- **What stands behind the pool is written with first indices.** The parts are taken one after the
other, and all their indices are carried into the last pool. -/
theorem indexes : Indexes ClassFile.bodyBytes bytes
    (fun pool x c => x.IsFirst pool ∧ x.Denotes pool c) where
  appends := appends_bodyBytes
  grown := by
    rintro old new x c hgrown ⟨hfirst, hdenotes⟩
    have hname := indexes_class.grown hgrown ⟨hfirst.name, hdenotes.name⟩
    have hsuperName := indexes_superName.grown hgrown ⟨hfirst.superName, hdenotes.superName⟩
    have hinterfaces := indexes_interfaces.grown hgrown ⟨hfirst.interfaces, hdenotes.interfaces⟩
    have hfields := IndexedMember.indexes_table.grown hgrown ⟨hfirst.fields, hdenotes.fields⟩
    have hmethods := IndexedMember.indexes_table.grown hgrown ⟨hfirst.methods, hdenotes.methods⟩
    have hattributes := IndexedAttribute.indexes_table.grown hgrown
      ⟨hfirst.attributes, hdenotes.attributes⟩
    exact ⟨⟨hname.1, hsuperName.1, hinterfaces.1, hfields.1, hmethods.1, hattributes.1⟩,
      hdenotes.access, hname.2, hsuperName.2, hinterfaces.2, hfields.2, hmethods.2, hattributes.2⟩
  exists_form {pool pool' c w} hpool h := by
    obtain ⟨name, pool₁, hname, h⟩ := Interning.bind_eq_ok.1 h
    obtain ⟨superName, pool₂, hsuperName, h⟩ := Interning.bind_eq_ok.1 h
    obtain ⟨interfaces, pool₃, hinterfaces, h⟩ := Interning.bind_eq_ok.1 h
    obtain ⟨fields, pool₄, hfields, h⟩ := Interning.bind_eq_ok.1 h
    obtain ⟨methods, pool₅, hmethods, h⟩ := Interning.bind_eq_ok.1 h
    obtain ⟨attributes, last, hattributes, h⟩ := Interning.bind_eq_ok.1 h
    obtain ⟨rfl, rfl⟩ := Interning.pure_eq_ok.1 h
    have hpool₁ := (appends_internClass _).reachable_of_ok hpool hname
    have hpool₂ := (appends_superIndex _).reachable_of_ok hpool₁ hsuperName
    have hpool₃ := (appends_interfaceBytes _).reachable_of_ok hpool₂ hinterfaces
    have hpool₄ := (appends_tableBytes _).reachable_of_ok hpool₃ hfields
    have hpool₅ := (appends_tableBytes _).reachable_of_ok hpool₄ hmethods
    have hgrown₅ := (Attribute.appends_tableBytes _).grown_of_ok hattributes
    have hgrown₄ := ((appends_tableBytes _).grown_of_ok hmethods).trans hgrown₅
    have hgrown₃ := ((appends_tableBytes _).grown_of_ok hfields).trans hgrown₄
    have hgrown₂ := ((appends_interfaceBytes _).grown_of_ok hinterfaces).trans hgrown₃
    have hgrown₁ := ((appends_superIndex _).grown_of_ok hsuperName).trans hgrown₂
    obtain ⟨_, hform, hnameAt⟩ := indexes_class.exists_form hpool hname
    cases hform
    obtain ⟨_, hform, hsuperAt⟩ := indexes_superName.exists_form hpool₁ hsuperName
    cases hform
    obtain ⟨interfacesAt, hinterfaceForm, hinterfacesAt⟩ :=
      indexes_interfaces.exists_form hpool₂ hinterfaces
    obtain ⟨fieldsAt, hfieldForm, hfieldsAt⟩ :=
      IndexedMember.indexes_table.exists_form hpool₃ hfields
    obtain ⟨methodsAt, hmethodForm, hmethodsAt⟩ :=
      IndexedMember.indexes_table.exists_form hpool₄ hmethods
    obtain ⟨attributesAt, hattributeForm, hattributesAt⟩ :=
      IndexedAttribute.indexes_table.exists_form hpool₅ hattributes
    -- Every index was a first one in the pool of its time, and all those pools have grown.
    have hnameLast := indexes_class.grown hgrown₁ hnameAt
    have hsuperLast := indexes_superName.grown hgrown₂ hsuperAt
    have hinterfacesLast := indexes_interfaces.grown hgrown₃ hinterfacesAt
    have hfieldsLast := IndexedMember.indexes_table.grown hgrown₄ hfieldsAt
    have hmethodsLast := IndexedMember.indexes_table.grown hgrown₅ hmethodsAt
    refine ⟨⟨c.access, name, superName, interfacesAt, fieldsAt, methodsAt, attributesAt⟩, ?_,
      ⟨hnameLast.1, hsuperLast.1, hinterfacesLast.1, hfieldsLast.1, hmethodsLast.1,
        hattributesAt.1⟩,
      rfl, hnameLast.2, hsuperLast.2, hinterfacesLast.2, hfieldsLast.2, hmethodsLast.2,
      hattributesAt.2⟩
    exact bind_eq_ok.2 ⟨_, hinterfaceForm, bind_eq_ok.2 ⟨_, hfieldForm, bind_eq_ok.2
      ⟨_, hmethodForm, bind_eq_ok.2 ⟨_, hattributeForm, rfl⟩⟩⟩⟩
  same := by
    rintro pool x c w hpool ⟨hfirst, hdenotes⟩ hform
    obtain ⟨interfaces, hinterfaceForm, hform⟩ := bind_eq_ok.1 hform
    obtain ⟨fields, hfieldForm, hform⟩ := bind_eq_ok.1 hform
    obtain ⟨methods, hmethodForm, hform⟩ := bind_eq_ok.1 hform
    obtain ⟨attributes, hattributeForm, hend⟩ := bind_eq_ok.1 hform
    cases hend
    have hname := indexes_class.same hpool ⟨hfirst.name, hdenotes.name⟩ rfl
    have hsuperName := indexes_superName.same hpool ⟨hfirst.superName, hdenotes.superName⟩ rfl
    have hinterfaces := indexes_interfaces.same hpool ⟨hfirst.interfaces, hdenotes.interfaces⟩
      hinterfaceForm
    have hfields := IndexedMember.indexes_table.same hpool ⟨hfirst.fields, hdenotes.fields⟩
      hfieldForm
    have hmethods := IndexedMember.indexes_table.same hpool ⟨hfirst.methods, hdenotes.methods⟩
      hmethodForm
    have hattributes := IndexedAttribute.indexes_table.same hpool
      ⟨hfirst.attributes, hdenotes.attributes⟩ hattributeForm
    refine Interning.bind_eq_ok.2 ⟨_, pool, hname, Interning.bind_eq_ok.2 ⟨_, pool, hsuperName,
      Interning.bind_eq_ok.2 ⟨_, pool, hinterfaces, Interning.bind_eq_ok.2 ⟨_, pool, hfields,
        Interning.bind_eq_ok.2 ⟨_, pool, hmethods, Interning.bind_eq_ok.2
          ⟨_, pool, hattributes, ?_⟩⟩⟩⟩⟩⟩
    rw [hdenotes.access]
    rfl

end IndexedBody
end ClassLoom
