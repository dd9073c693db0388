import ClassLoom.Proofs.ConstantPool.Interning
import Mathlib.Data.Finset.Card

/-!
# Room for symbols

Texts and names of classes are interned one after the other. Each of them has its slots already
or takes new ones, and none of them takes a slot that another one has taken. So they fit if there
are as many slots left as they lack (`missing`).

* `internAll`: symbols in their order;
* `exists_internAll`: a pool with room for all of them;
* `takesSlots_internMethod`: what is enough for a method reference, whatever a pool has.
-/

namespace ClassLoom

open ConstantPool

/-- A symbol that is written as an index of the pool. -/
inductive Symbol where
  | text (text : String)
  | className (name : String)
  deriving DecidableEq, Repr

namespace Symbol

/-- The text of a symbol. -/
def name : Symbol → String
  | text t => t
  | className name => name

/-- The class that a symbol names, if it does. -/
def className? : Symbol → Option String
  | text _ => none
  | className name => some name

/-- The slot of a symbol. -/
def intern : Symbol → Interning UInt16
  | text t => internUtf8 t
  | className name => internClass name

end Symbol

/-- Interns symbols in order. -/
def internAll : List Symbol → Interning Unit
  | [] => return
  | symbol :: rest => do
    let _ ← symbol.intern
    internAll rest

/-- Interning a row of symbols is interning its parts, one behind the other. The pool in between is
what the first part leaves. -/
theorem internAll_append_eq_ok {xs ys : List Symbol} {pool pool' : ConstantPool} :
    internAll (xs ++ ys) pool = .ok () pool'
      ↔ ∃ mid, internAll xs pool = .ok () mid ∧ internAll ys mid = .ok () pool' := by
  -- On the first list. Its symbols are interned before any of the second.
  induction xs generalizing pool with
  | nil =>
    constructor
    · intro h
      exact ⟨pool, rfl, h⟩
    · rintro ⟨mid, hmid, h⟩
      cases hmid
      exact h
  | cons x xs ih =>
    constructor
    · intro h
      obtain ⟨slot, first, hslot, h⟩ := Interning.bind_eq_ok.1 h
      obtain ⟨mid, hmid, h⟩ := ih.1 h
      exact ⟨mid, Interning.bind_eq_ok.2 ⟨slot, first, hslot, hmid⟩, h⟩
    · rintro ⟨mid, hmid, h⟩
      obtain ⟨slot, first, hslot, hmid⟩ := Interning.bind_eq_ok.1 hmid
      exact Interning.bind_eq_ok.2 ⟨slot, first, hslot, ih.2 ⟨mid, hmid, h⟩⟩

theorem Symbol.appends_intern (symbol : Symbol) : Interning.Appends symbol.intern := by
  cases symbol with
  | text t => exact appends_internUtf8 t
  | className name => exact appends_internClass name

theorem appends_internAll (symbols : List Symbol) : Interning.Appends (internAll symbols) := by
  induction symbols with
  | nil => exact .pure ()
  | cons symbol rest ih => exact symbol.appends_intern.bind fun _ => ih

/-- A symbol that was interned has its text in the pool. -/
theorem Symbol.mem_of_intern (symbol : Symbol) {pool pool' : ConstantPool} {i : UInt16}
    (hpool : Reachable pool) (h : symbol.intern pool = .ok i pool') :
    Constant.utf8 symbol.name ∈ pool'.slots.toList := by
  have htext {text : String} {i : UInt16} {pool' : ConstantPool}
      (h : internUtf8 text pool = .ok i pool') : Constant.utf8 text ∈ pool'.slots.toList := by
    have hslot := (get_eq_ok.1 (getUtf8_eq_ok.1 (internUtf8_spec hpool.consistent.located h))).1
    rw [← Array.getElem?_toList] at hslot
    exact List.mem_of_getElem? hslot
  cases symbol with
  | text t => exact htext h
  | className name =>
    obtain ⟨j, mid, hname, hclass⟩ := Interning.bind_eq_ok.1 h
    exact ((ConstantPool.appends_intern (by simp)).grown_of_ok hclass).subset (htext hname)

/-! ## Missing slots

A symbol that has a slot needs none. So what counts is how many texts and classes there are among
the symbols that have no slot yet, each counted once. A class has a slot only if it has one with the
first slot of its name, since this is the one that interning looks for. -/

namespace ConstantPool

/-- Whether a text has a slot. -/
def hasText (pool : ConstantPool) (text : String) : Bool :=
  (pool.index[Constant.utf8 text]?).isSome

/-- Whether a class constant has a slot, with the first slot of its name. -/
def hasClass (pool : ConstantPool) (name : String) : Bool :=
  (pool.index[Constant.utf8 name]?).any fun i => (pool.index[Constant.classInfo i]?).isSome

/-- The texts of symbols that have no slot. -/
def missingTexts (pool : ConstantPool) (symbols : List Symbol) : Finset String :=
  (symbols.map Symbol.name).toFinset.filter fun text => pool.hasText text = false

/-- The classes that symbols name and that have no slot. -/
def missingClasses (pool : ConstantPool) (symbols : List Symbol) : Finset String :=
  (symbols.filterMap Symbol.className?).toFinset.filter fun name => pool.hasClass name = false

/-- How many slots symbols lack. -/
def missing (pool : ConstantPool) (symbols : List Symbol) : Nat :=
  (pool.missingTexts symbols).card + (pool.missingClasses symbols).card

section Interns

variable {pool pool' : ConstantPool} {c : Constant} {i : UInt16} {symbols : List Symbol}

/-- What is found in a pool is found where it was when the pool has grown. -/
theorem Grown.index (h : Grown pool pool') (hpool : pool.Consistent) (hpool' : pool'.Consistent)
    (hc : pool.index[c]? = some i) : pool'.index[c]? = some i := by
  obtain ⟨husable, hfirst⟩ := (hpool.index_iff c i).1 hc
  exact (hpool'.index_iff c i).2 ⟨husable, hfirst.grown h⟩

/-- A text that has a slot keeps it. -/
theorem Grown.hasText (h : Grown pool pool') (hpool : pool.Consistent)
    (hpool' : pool'.Consistent) {text : String} (htext : pool.hasText text = true) :
    pool'.hasText text = true := by
  obtain ⟨i, hi⟩ := Option.isSome_iff_exists.1 htext
  exact Option.isSome_iff_exists.2 ⟨i, h.index hpool hpool' hi⟩

/-- A class has a slot if its name has one, and a class constant for that slot has one. -/
theorem hasClass_iff {name : String} : pool.hasClass name = true ↔ ∃ i j,
    pool.index[Constant.utf8 name]? = some i ∧ pool.index[Constant.classInfo i]? = some j := by
  unfold ConstantPool.hasClass
  rw [Option.any_eq_true]
  constructor
  · rintro ⟨i, hi, hclass⟩
    obtain ⟨j, hj⟩ := Option.isSome_iff_exists.1 hclass
    exact ⟨i, j, hi, hj⟩
  · rintro ⟨i, j, hi, hj⟩
    exact ⟨i, hi, Option.isSome_iff_exists.2 ⟨j, hj⟩⟩

/-- A class that has a slot keeps it, with that of its name. -/
theorem Grown.hasClass (h : Grown pool pool') (hpool : pool.Consistent)
    (hpool' : pool'.Consistent) {name : String} (hclass : pool.hasClass name = true) :
    pool'.hasClass name = true := by
  obtain ⟨i, j, hi, hj⟩ := hasClass_iff.1 hclass
  exact hasClass_iff.2 ⟨i, j, h.index hpool hpool' hi, h.index hpool hpool' hj⟩

/-- What is missing in a pool that has grown was missing before. -/
theorem Grown.missing_subset (h : Grown pool pool') (hpool : pool.Consistent)
    (hpool' : pool'.Consistent) (symbols : List Symbol) :
    pool'.missingTexts symbols ⊆ pool.missingTexts symbols
      ∧ pool'.missingClasses symbols ⊆ pool.missingClasses symbols := by
  constructor
  · refine Finset.monotone_filter_right _ fun text _ htext => ?_
    exact Bool.eq_false_iff.2 fun hhad => Bool.eq_false_iff.1 htext (h.hasText hpool hpool' hhad)
  · refine Finset.monotone_filter_right _ fun name _ hname => ?_
    exact Bool.eq_false_iff.2 fun hhad => Bool.eq_false_iff.1 hname (h.hasClass hpool hpool' hhad)

/-- A constant of one slot can be pushed where there is one left. -/
theorem exists_push (hwide : c.isWide = false) (hroom : pool.size + 1 ≤ 65535) :
    ∃ i pool', push c pool = .ok i pool' := by
  unfold push
  simp only [Constant.width, hwide]
  rw [if_neg (by unfold size at hroom; simp; omega)]
  exact ⟨_, _, rfl⟩

/-- A constant that has no slot takes one, if there is one left. -/
theorem exists_intern (hpool : pool.Consistent) (hc : c ≠ .unusable) (hwide : c.isWide = false)
    (hmissing : pool.index[c]? = none) (hroom : pool.size + 1 ≤ 65535) :
    ∃ i pool', intern c pool = .ok i pool' ∧ pool'.Consistent ∧ Grown pool pool'
      ∧ pool'.index[c]? = some i ∧ pool'.size = pool.size + 1 := by
  obtain ⟨i, pool', hpush⟩ := exists_push hwide hroom
  obtain ⟨_, _, hslots, hindex⟩ := push_eq_ok hpush
  refine ⟨i, pool', ?_, push_consistent hpool hc hpush, push_grown hpush, ?_, ?_⟩
  · rw [intern_eq, hmissing]
    exact hpush
  · have hnew : c ∉ pool.index := by
      rw [Std.TreeMap.mem_iff_isSome_getElem?, hmissing]
      simp
    rw [hindex, Std.TreeMap.getElem?_insertIfNew, if_pos ⟨Std.ReflCmp.compare_self, hnew⟩]
  · have hlength := congrArg List.length hslots
    rw [List.length_append, Array.length_toList, Array.length_toList] at hlength
    simpa [slotsOf, hwide, size] using hlength

/-- Interning a text that symbols need leaves as much room for them as before. If it took a slot,
there is one less missing. -/
theorem exists_internUtf8 {text : String} (hpool : pool.Consistent)
    (htext : text ∈ symbols.map Symbol.name) (hroom : pool.size + pool.missing symbols ≤ 65535) :
    ∃ i pool', internUtf8 text pool = .ok i pool' ∧ pool'.Consistent
      ∧ pool'.index[Constant.utf8 text]? = some i
      ∧ pool'.size + pool'.missing symbols ≤ pool.size + pool.missing symbols := by
  cases hfound : pool.index[Constant.utf8 text]? with
  | some i =>
    refine ⟨i, pool, ?_, hpool, hfound, Nat.le_refl _⟩
    unfold internUtf8
    rw [intern_eq, hfound]
  | none =>
    have hmissing : text ∈ pool.missingTexts symbols := by
      refine Finset.mem_filter.2 ⟨List.mem_toFinset.2 htext, ?_⟩
      rw [hasText, hfound]
      rfl
    have hpos := Finset.card_pos.2 ⟨text, hmissing⟩
    unfold missing at hroom ⊢
    obtain ⟨i, pool', hintern, hpool', hgrown, hindex, hsize⟩ :=
      exists_intern hpool (by simp) rfl hfound (by omega)
    obtain ⟨htexts, hclasses⟩ := hgrown.missing_subset hpool hpool' symbols
    refine ⟨i, pool', hintern, hpool', hindex, ?_⟩
    -- The text is not missing any more, and makes up for the slot.
    have hgone : text ∉ pool'.missingTexts symbols := by
      intro hmem
      have hnot := (Finset.mem_filter.1 hmem).2
      rw [hasText, hindex] at hnot
      cases hnot
    have hfewer := Finset.card_le_card (Finset.subset_erase.2 ⟨htexts, hgone⟩)
    rw [Finset.card_erase_of_mem hmissing] at hfewer
    have hclasses := Finset.card_le_card hclasses
    omega

/-- Interning a class that symbols name, once its name has a slot, leaves as much room for them
as before. -/
theorem exists_intern_classInfo {name : String} (hpool : pool.Consistent)
    (hname : name ∈ symbols.filterMap Symbol.className?)
    (hindex : pool.index[Constant.utf8 name]? = some i)
    (hroom : pool.size + pool.missing symbols ≤ 65535) :
    ∃ j pool', ConstantPool.intern (.classInfo i) pool = .ok j pool' ∧ pool'.Consistent
      ∧ pool'.size + pool'.missing symbols ≤ pool.size + pool.missing symbols := by
  cases hfound : pool.index[Constant.classInfo i]? with
  | some j =>
    refine ⟨j, pool, ?_, hpool, Nat.le_refl _⟩
    rw [intern_eq, hfound]
  | none =>
    have hmissing : name ∈ pool.missingClasses symbols := by
      refine Finset.mem_filter.2 ⟨List.mem_toFinset.2 hname, ?_⟩
      rw [hasClass, hindex, Option.any_some, hfound]
      rfl
    have hpos := Finset.card_pos.2 ⟨name, hmissing⟩
    unfold missing at hroom ⊢
    obtain ⟨j, pool', hintern, hpool', hgrown, hclass, hsize⟩ :=
      exists_intern hpool (by simp) rfl hfound (by omega)
    obtain ⟨htexts, hclasses⟩ := hgrown.missing_subset hpool hpool' symbols
    refine ⟨j, pool', hintern, hpool', ?_⟩
    -- As before: what was missing has its slot now.
    have hgone : name ∉ pool'.missingClasses symbols := by
      intro hmem
      have hhas := hasClass_iff.2 ⟨i, j, hgrown.index hpool hpool' hindex, hclass⟩
      rw [(Finset.mem_filter.1 hmem).2] at hhas
      cases hhas
    have hfewer := Finset.card_le_card (Finset.subset_erase.2 ⟨hclasses, hgone⟩)
    rw [Finset.card_erase_of_mem hmissing] at hfewer
    have htexts := Finset.card_le_card htexts
    omega

/-- Interning a symbol leaves as much room for it and all others as before. A class is interned in
two steps, of which the first is a text. -/
theorem exists_intern_symbol {symbol : Symbol} (hpool : pool.Consistent)
    (hsymbol : symbol ∈ symbols) (hroom : pool.size + pool.missing symbols ≤ 65535) :
    ∃ i pool', symbol.intern pool = .ok i pool' ∧ pool'.Consistent
      ∧ pool'.size + pool'.missing symbols ≤ pool.size + pool.missing symbols := by
  have htext := List.mem_map_of_mem (f := Symbol.name) hsymbol
  obtain ⟨i, mid, hintern, hmid, hindex, hle⟩ := exists_internUtf8 hpool htext hroom
  cases symbol with
  | text t => exact ⟨i, mid, hintern, hmid, hle⟩
  | className name =>
    obtain ⟨j, pool', hclass, hpool', hle'⟩ := exists_intern_classInfo hmid
      (List.mem_filterMap.2 ⟨_, hsymbol, rfl⟩) hindex (hle.trans hroom)
    exact ⟨j, pool', Interning.bind_eq_ok.2 ⟨i, mid, hintern, hclass⟩, hpool', hle'.trans hle⟩

/-- **Symbols fit where there is a slot for each of them that has none.** The induction carries the
room for all symbols along, and not only for those that are still to come. -/
theorem exists_internAll (hpool : pool.Consistent)
    (hroom : pool.size + pool.missing symbols ≤ 65535) :
    ∃ pool', internAll symbols pool = .ok () pool' := by
  -- The room that is left for all symbols stays, whichever have been interned.
  have hall : ∀ rest ⊆ symbols, ∀ pool : ConstantPool, pool.Consistent →
      pool.size + pool.missing symbols ≤ 65535 → ∃ pool', internAll rest pool = .ok () pool' := by
    intro rest
    induction rest with
    | nil => exact fun _ pool _ _ => ⟨pool, rfl⟩
    | cons symbol rest ih =>
      intro hsubset pool hpool hroom
      obtain ⟨hsymbol, hrest⟩ := List.cons_subset.1 hsubset
      obtain ⟨i, mid, hintern, hmid, hle⟩ := exists_intern_symbol hpool hsymbol hroom
      obtain ⟨pool', hend⟩ := ih hrest mid hmid (hle.trans hroom)
      exact ⟨pool', Interning.bind_eq_ok.2 ⟨i, mid, hintern, hend⟩⟩
  exact hall symbols (List.Subset.refl _) pool hpool hroom

/-- Symbols that were interned have their texts in the pool. -/
theorem mem_of_internAll (hpool : Reachable pool) (h : internAll symbols pool = .ok () pool')
    {symbol : Symbol} (hsymbol : symbol ∈ symbols) :
    Constant.utf8 symbol.name ∈ pool'.slots.toList := by
  induction symbols generalizing pool with
  | nil => cases hsymbol
  | cons first rest ih =>
    obtain ⟨i, mid, hintern, hrest⟩ := Interning.bind_eq_ok.1 h
    have hmid := first.appends_intern.reachable_of_ok hpool hintern
    rcases List.mem_cons.1 hsymbol with rfl | hsymbol
    · exact ((appends_internAll rest).grown_of_ok hrest).subset (symbol.mem_of_intern hpool hintern)
    · exact ih hmid hrest hsymbol

/-! ## How many slots are missing

The number of missing slots can be bounded without looking at a pool. It does not rise when the pool
grows. -/

/-- No slot that is there goes missing. -/
theorem Grown.missing_le (h : Grown pool pool') (hpool : pool.Consistent)
    (hpool' : pool'.Consistent) (symbols : List Symbol) :
    pool'.missing symbols ≤ pool.missing symbols := by
  obtain ⟨htexts, hclasses⟩ := h.missing_subset hpool hpool' symbols
  exact Nat.add_le_add (Finset.card_le_card htexts) (Finset.card_le_card hclasses)

/-- Symbols of two kinds lack no more slots than those of each kind do together. A symbol of both
kinds is counted twice on the right. -/
theorem missing_le_add (pool : ConstantPool) {xs ys : List Symbol} (h : symbols ⊆ xs ++ ys) :
    pool.missing symbols ≤ pool.missing xs + pool.missing ys := by
  -- A text or a class that is missing is missing from one of the two lists at least.
  have htexts : pool.missingTexts symbols ⊆ pool.missingTexts xs ∪ pool.missingTexts ys := by
    unfold missingTexts
    rw [← Finset.filter_union, ← List.toFinset_append, ← List.map_append]
    refine Finset.filter_subset_filter _ fun text htext => ?_
    rw [List.mem_toFinset] at htext ⊢
    exact List.map_subset _ h htext
  have hclasses : pool.missingClasses symbols
      ⊆ pool.missingClasses xs ∪ pool.missingClasses ys := by
    unfold missingClasses
    rw [← Finset.filter_union, ← List.toFinset_append, ← List.filterMap_append]
    refine Finset.filter_subset_filter _ fun name hname => ?_
    obtain ⟨symbol, hsymbol, hclass⟩ := List.mem_filterMap.1 (List.mem_toFinset.1 hname)
    exact List.mem_toFinset.2 (List.mem_filterMap.2 ⟨symbol, h hsymbol, hclass⟩)
  have htexts := (Finset.card_le_card htexts).trans (Finset.card_union_le _ _)
  have hclasses := (Finset.card_le_card hclasses).trans (Finset.card_union_le _ _)
  unfold missing
  omega

/-- A text lacks one slot at most. -/
theorem missing_le_length (pool : ConstantPool)
    (h : ∀ symbol ∈ symbols, symbol.className? = none) :
    pool.missing symbols ≤ symbols.length := by
  have hclasses : pool.missingClasses symbols = ∅ := by
    unfold missingClasses
    rw [List.filterMap_eq_nil_iff.2 h]
    rfl
  have htexts : (pool.missingTexts symbols).card ≤ symbols.length := by
    have hall := List.toFinset_card_le (symbols.map Symbol.name)
    rw [List.length_map] at hall
    exact (Finset.card_filter_le _ _).trans hall
  unfold missing
  rw [hclasses, Finset.card_empty]
  exact htexts

end Interns

/-! ## Slots that are enough for any pool

For computations that intern a fixed number of things it is enough to count them, whatever the pool
has already. -/

section TakesSlots

variable {α β : Type} {n k : Nat}

/-- Whether a computation succeeds where `n` slots are left, and takes no more. -/
def TakesSlots (n : Nat) (x : Interning α) : Prop :=
  ∀ pool : ConstantPool, pool.size + n ≤ 65535 →
    ∃ a pool', x pool = .ok a pool' ∧ pool'.size ≤ pool.size + n

/-- Two computations take no more slots than both. -/
theorem TakesSlots.bind {x : Interning α} {f : α → Interning β} (hx : TakesSlots n x)
    (hf : ∀ a, TakesSlots k (f a)) : TakesSlots (n + k) (x >>= f) := by
  intro pool hroom
  obtain ⟨a, mid, ha, hmid⟩ := hx pool (by omega)
  obtain ⟨b, pool', hb, hpool'⟩ := hf a mid (by omega)
  exact ⟨b, pool', Interning.bind_eq_ok.2 ⟨a, mid, ha, hb⟩, by omega⟩

/-- A constant that is not wide takes one slot. -/
theorem takesSlots_intern {c : Constant} (hwide : c.isWide = false) :
    TakesSlots 1 (ConstantPool.intern c) := by
  intro pool hroom
  rw [intern_eq]
  cases hfound : pool.index[c]? with
  | some i => exact ⟨i, pool, rfl, Nat.le_succ _⟩
  | none =>
    obtain ⟨i, pool', hpush⟩ := exists_push hwide hroom
    have hsize := size_push hpush
    rw [Constant.width, hwide] at hsize
    exact ⟨i, pool', hpush, Nat.le_of_eq hsize⟩

/-- A method reference takes six slots: three for texts, and one each for the class, the name with
its descriptor, and the reference. -/
theorem takesSlots_internMethod (owner name descriptor : String) (ofInterface : Bool) :
    TakesSlots 6 (internMethod owner name descriptor ofInterface) := by
  have hclass : TakesSlots 2 (internClass owner) :=
    (takesSlots_intern rfl).bind fun _ => takesSlots_intern rfl
  have hmember : TakesSlots 3 (internNameAndType name descriptor) :=
    (takesSlots_intern rfl).bind fun _ => (takesSlots_intern rfl).bind fun _ => takesSlots_intern rfl
  refine hclass.bind fun _ => hmember.bind fun _ => takesSlots_intern ?_
  cases ofInterface <;> rfl

end TakesSlots
end ConstantPool
end ClassLoom
