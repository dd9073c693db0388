import ClassLoom.Binary
import Mathlib.Data.List.Forall2

/-!
# Computations that succeed

Reading, laying out and typing are all written in `Except`, in `Reader` and in `StateT` over
`Except`. This module takes a successful run of one apart:

* `bind_eq_ok`: a sequence succeeds where its first part does and the second part does with
  what the first one gave;
* `toOption_bind_eq_some`: the same where the failure does not matter;
* `mapM_eq_ok`: a traversal succeeds where it does item by item;
* `stateT_bind_eq_ok`: a sequence again, with the state that each part leaves;
* `Reader.bind_eq_ok`: the same for readers, with the bytes that each part leaves;
* `Reader.bind_run`, `Reader.lift_run`: a reader goes on behind what it has read;
* `Reader.word16_eq_ok`, `Reader.times_succ_eq_ok`, `Reader.all_eq_ok`: the readers at hand.
-/

namespace ClassLoom

/-! ## `Except`

Programs are sequences of steps that may fail. Each equation below takes one of them apart, so that
no proof needs to unfold how steps are put together. -/

/-- A sequence of two computations succeeds exactly where both do. The result of the first one is
what the second one is run with. -/
theorem bind_eq_ok {ε α β : Type} {x : Except ε α} {f : α → Except ε β} {b : β} :
    x >>= f = .ok b ↔ ∃ a, x = .ok a ∧ f a = .ok b := by
  cases x with
  | error e =>
    constructor
    · intro h
      cases h
    · rintro ⟨a, ha, _⟩
      cases ha
  | ok a =>
    show f a = .ok b ↔ _
    constructor
    · intro h
      exact ⟨a, rfl, h⟩
    · rintro ⟨a', ha, hb⟩
      cases ha
      exact hb

/-- A sequence of two computations fails where the first one that fails does. -/
theorem bind_eq_error {ε α β : Type} {x : Except ε α} {f : α → Except ε β} {e : ε} :
    x >>= f = .error e ↔ x = .error e ∨ ∃ a, x = .ok a ∧ f a = .error e := by
  cases x with
  | error e' =>
    show Except.error e' = .error e ↔ _
    simp
  | ok a =>
    show f a = .error e ↔ _
    simp

/-- Whether a computation succeeds is decided by running it. -/
instance decidableSucceeds {ε α : Type} (x : Except ε α) : Decidable (∃ a, x = .ok a) :=
  match x with
  | .ok a => .isTrue ⟨a, rfl⟩
  | .error _ => .isFalse fun h => by
    obtain ⟨_, h⟩ := h
    cases h

/-- A sequence that forgets why its first part fails. Evaluations of closed terms are taken apart
with it. -/
theorem toOption_bind_eq_some {ε α β : Type} {x : Except ε α} {f : α → Option β} {b : β} :
    x.toOption >>= f = some b ↔ ∃ a, x = .ok a ∧ f a = some b := by
  cases x with
  | error e =>
    constructor
    · intro h
      cases h
    · rintro ⟨a, ha, _⟩
      cases ha
  | ok a =>
    constructor
    · intro h
      exact ⟨a, rfl, h⟩
    · rintro ⟨a', ha, hb⟩
      cases ha
      exact hb

/-- A traversal succeeds exactly where it does on every item. Then the results are those of the
items, one for one. -/
theorem mapM_eq_ok {ε α β : Type} {f : α → Except ε β} {xs : List α} {ys : List β} :
    xs.mapM f = .ok ys ↔ List.Forall₂ (fun x y => f x = .ok y) xs ys := by
  induction xs generalizing ys with
  | nil =>
    rw [List.mapM_nil, List.forall₂_nil_left_iff]
    constructor
    · intro h
      cases h
      rfl
    · intro h
      rw [h]
      rfl
  | cons x xs ih =>
    -- The list of results grows with the list of arguments, one result for each.
    rw [List.mapM_cons, bind_eq_ok, List.forall₂_cons_left_iff]
    constructor
    · rintro ⟨y, hy, hrest⟩
      obtain ⟨ys', hys, hcons⟩ := bind_eq_ok.1 hrest
      cases hcons
      exact ⟨y, ys', hy, ih.1 hys, rfl⟩
    · rintro ⟨y, ys', hy, hys, rfl⟩
      exact ⟨y, hy, bind_eq_ok.2 ⟨ys', ih.2 hys, rfl⟩⟩

/-- A traversal by a computation that succeeds on every item gives all results. -/
theorem mapM_ok {ε α β : Type} {g : α → Except ε β} {f : α → β} {xs : List α}
    (h : ∀ x ∈ xs, g x = .ok (f x)) : xs.mapM g = .ok (xs.map f) := by
  rw [mapM_eq_ok, List.forall₂_map_right_iff, List.forall₂_same]
  exact h

theorem mapM_eq_self {ε α : Type} {g : α → Except ε α} {xs : List α}
    (h : ∀ x ∈ xs, g x = .ok x) : xs.mapM g = .ok xs :=
  (mapM_ok (f := id) h).trans (congrArg Except.ok (List.map_id xs))

/-- In lists that are related item by item, every item is related to one of the others. -/
theorem exists_of_mem_left {α β : Type} {R : α → β → Prop} {xs : List α} {ys : List β}
    (h : List.Forall₂ R xs ys) {x : α} (hx : x ∈ xs) : ∃ y ∈ ys, R x y := by
  induction h with
  | nil => cases hx
  | cons hhead _ ih =>
    rcases List.mem_cons.1 hx with rfl | hx
    · exact ⟨_, List.mem_cons_self .., hhead⟩
    · obtain ⟨y, hy, hrelated⟩ := ih hx
      exact ⟨y, List.mem_cons_of_mem _ hy, hrelated⟩

theorem exists_of_mem_right {α β : Type} {R : α → β → Prop} {xs : List α} {ys : List β}
    (h : List.Forall₂ R xs ys) {y : β} (hy : y ∈ ys) : ∃ x ∈ xs, R x y :=
  exists_of_mem_left (R := fun y x => R x y) (List.Forall₂.flip h) hy

/-- What is related to a list in two parts is in two parts. -/
theorem exists_of_forall₂_append {α β : Type} {R : α → β → Prop} {xs ys : List α} {zs : List β}
    (h : List.Forall₂ R (xs ++ ys) zs) :
    ∃ front back, zs = front ++ back ∧ List.Forall₂ R xs front ∧ List.Forall₂ R ys back := by
  refine ⟨zs.take xs.length, zs.drop xs.length, (List.take_append_drop ..).symm, ?_, ?_⟩
  · have hfront := List.forall₂_take xs.length h
    rwa [List.take_left] at hfront
  · have hback := List.forall₂_drop xs.length h
    rwa [List.drop_left] at hback

/-- Lists that are related item by item with the same list in between. -/
theorem forall₂_trans {α β γ : Type} {R : α → β → Prop} {S : β → γ → Prop} {T : α → γ → Prop}
    (htrans : ∀ a b c, R a b → S b c → T a c) {xs : List α} {ys : List β} {zs : List γ}
    (hxy : List.Forall₂ R xs ys) (hyz : List.Forall₂ S ys zs) : List.Forall₂ T xs zs := by
  induction hxy generalizing zs with
  | nil =>
    cases hyz
    exact .nil
  | cons hhead _ ih =>
    cases hyz with
    | cons hhead' htail' => exact .cons (htrans _ _ _ hhead hhead') (ih htail')

/-- A traversal succeeds only where its computation does on every item. -/
theorem exists_ok_of_mapM {ε α β : Type} {g : α → Except ε β} {xs : List α} {ys : List β}
    (h : xs.mapM g = .ok ys) : ∀ x ∈ xs, ∃ y, g x = .ok y := by
  intro x hx
  obtain ⟨y, _, hy⟩ := exists_of_mem_left (mapM_eq_ok.1 h) hx
  exact ⟨y, hy⟩

/-- A traversal succeeds if its computation does on every item. -/
theorem exists_mapM_ok {ε α β : Type} {g : α → Except ε β} {xs : List α}
    (h : ∀ x ∈ xs, ∃ y, g x = .ok y) : ∃ ys, xs.mapM g = .ok ys := by
  induction xs with
  | nil => exact ⟨[], rfl⟩
  | cons x xs ih =>
    obtain ⟨⟨y, hy⟩, hxs⟩ := List.forall_mem_cons.1 h
    obtain ⟨ys, hys⟩ := ih hxs
    rw [mapM_eq_ok] at hys
    exact ⟨y :: ys, mapM_eq_ok.2 (.cons hy hys)⟩

/-- A traversal fails as its computation does on one of the items. It is the first one that
fails. -/
theorem exists_error_of_mapM {ε α β : Type} {g : α → Except ε β} {xs : List α} {e : ε}
    (h : xs.mapM g = .error e) : ∃ x ∈ xs, g x = .error e := by
  induction xs with
  | nil => cases h
  | cons x xs ih =>
    rw [List.mapM_cons] at h
    rcases bind_eq_error.1 h with hhead | ⟨y, _, h⟩
    · exact ⟨x, List.mem_cons_self .., hhead⟩
    · rcases bind_eq_error.1 h with hrest | ⟨ys, _, h⟩
      · obtain ⟨x', hmem, hfails⟩ := ih hrest
        exact ⟨x', List.mem_cons_of_mem _ hmem, hfails⟩
      · cases h

/-- What every step of a fold keeps holds at its end. Each step is told which item it is for, since
what it keeps may depend on that. -/
theorem foldlM_induction {ε α σ : Type} {f : σ → α → Except ε σ} {xs : List α} {start last : σ}
    {P : σ → Prop} (h : xs.foldlM f start = .ok last) (hstart : P start)
    (hstep : ∀ state, ∀ x ∈ xs, ∀ next, P state → f state x = .ok next → P next) : P last := by
  induction xs generalizing start with
  | nil =>
    cases h
    exact hstart
  | cons x xs ih =>
    rw [List.foldlM_cons] at h
    obtain ⟨next, hnext, h⟩ := bind_eq_ok.1 h
    exact ih h (hstep start x (List.mem_cons_self ..) next hstart hnext)
      fun state y hy => hstep state y (List.mem_cons_of_mem _ hy)

/-- The only item of a list. -/
theorem eq_singleton_of_head? {α : Type} {xs : List α} {x : α} (hone : xs.length = 1)
    (hhead : xs.head? = some x) : xs = [x] := by
  obtain ⟨y, rfl⟩ := List.length_eq_one_iff.1 hone
  cases hhead
  rfl

/-- The only two items of a list. -/
theorem eq_pair_of_getElem? {α : Type} {xs : List α} {x y : α} (htwo : xs.length = 2)
    (hx : xs[0]? = some x) (hy : xs[1]? = some y) : xs = [x, y] := by
  obtain ⟨a, b, rfl⟩ := List.length_eq_two.1 htwo
  cases hx
  cases hy
  rfl

/-! ## `StateT` over `Except`

A step that changes a state is a function to such a computation, and is taken apart in the same
way. -/

section StateT

variable {σ ε α β : Type} {f : α → StateT σ (Except ε) β} {s t : σ} {b : β}

/-- A sequence of two computations with a state succeeds exactly where both do, the second one
with the state that the first one leaves. -/
theorem stateT_bind_eq_ok {x : StateT σ (Except ε) α} :
    (x >>= f) s = .ok (b, t) ↔ ∃ a mid, x s = .ok (a, mid) ∧ f a mid = .ok (b, t) := by
  show (x s >>= fun r => f r.1 r.2) = .ok (b, t) ↔ _
  rw [bind_eq_ok]
  constructor
  · rintro ⟨⟨a, mid⟩, ha, hb⟩
    exact ⟨a, mid, ha, hb⟩
  · rintro ⟨a, mid, ha, hb⟩
    exact ⟨(a, mid), ha, hb⟩

/-- The same behind a computation that has nothing to do with the state. -/
theorem stateT_lift_bind_eq_ok {x : Except ε α} :
    ((liftM x : StateT σ (Except ε) α) >>= f) s = .ok (b, t)
      ↔ ∃ a, x = .ok a ∧ f a s = .ok (b, t) := by
  rw [stateT_bind_eq_ok]
  constructor
  · rintro ⟨a, mid, ha, hb⟩
    obtain ⟨found, hfound, hend⟩ := bind_eq_ok.1 ha
    cases hend
    exact ⟨a, hfound, hb⟩
  · rintro ⟨a, ha, hb⟩
    exact ⟨a, s, bind_eq_ok.2 ⟨a, ha, rfl⟩, hb⟩

end StateT

/-! ## Readers

Readers have the bytes that are left as their state. A reader of fixed width is told by the bytes
that it takes, in both directions. -/

namespace Reader

variable {α β : Type}

/-- A reader goes on behind what its first part has read. -/
theorem bind_run {p : Reader α} {f : α → Reader β} {bs rest : Bytes} {a : α}
    (h : p bs = .ok (a, rest)) : (p >>= f) bs = f a rest := by
  show (p bs >>= fun r => f r.1 r.2) = f a rest
  rw [h]
  rfl

/-- A sequence of two readers succeeds exactly where both do, the second one on what the first
one leaves. -/
theorem bind_eq_ok {p : Reader α} {f : α → Reader β} {bs rest : Bytes} {b : β} :
    (p >>= f) bs = .ok (b, rest) ↔ ∃ a mid, p bs = .ok (a, mid) ∧ f a mid = .ok (b, rest) :=
  stateT_bind_eq_ok

/-- A computation that reads nothing succeeds without reading. So look-ups may stand anywhere in a
reader. -/
theorem lift_eq_ok {x : Except ClassError α} {a : α} {bs rest : Bytes} :
    (liftM x : Reader α) bs = .ok (a, rest) ↔ x = .ok a ∧ bs = rest := by
  cases x with
  | error e =>
    constructor
    · intro h
      cases h
    · rintro ⟨h, _⟩
      cases h
  | ok a' =>
    constructor
    · intro h
      cases h
      exact ⟨rfl, rfl⟩
    · rintro ⟨h, rfl⟩
      cases h
      rfl

theorem lift_run {x : Except ClassError α} {a : α} (h : x = .ok a) (bs : Bytes) :
    (liftM x : Reader α) bs = .ok (a, bs) := by
  subst h
  rfl

/-- The next byte is the first one. -/
theorem byte_eq_ok {bs rest : Bytes} {b : UInt8} : byte bs = .ok (b, rest) ↔ bs = b :: rest := by
  constructor
  · intro h
    match bs, h with
    | _ :: _, h =>
      cases h
      rfl
  · rintro rfl
    rfl

/-- A word is what its two bytes say. No other two bytes say the same word. With the other lemmas of
this kind, reading is turned into equations between lists. -/
theorem word16_eq_ok {bs rest : Bytes} {w : UInt16} :
    word16 bs = .ok (w, rest) ↔ bs = Bytes.word16 w ++ rest := by
  constructor
  · intro h
    match bs, h with
    | a :: b :: more, h =>
      cases h
      have ha := a.toNat_lt
      have hb := b.toNat_lt
      -- The number of the word, from which both bytes are taken again.
      have hword : (Bytes.toWord16 a b).toNat = a.toNat * 256 + b.toNat := by
        rw [Bytes.toWord16, UInt16.toNat_ofNat']
        omega
      have hhigh : UInt8.ofNat ((Bytes.toWord16 a b).toNat / 256) = a := by
        apply UInt8.toNat.inj
        rw [UInt8.toNat_ofNat', hword]
        omega
      have hlow : UInt8.ofNat (Bytes.toWord16 a b).toNat = b := by
        apply UInt8.toNat.inj
        rw [UInt8.toNat_ofNat', hword]
        omega
      rw [Bytes.word16, hhigh, hlow]
      rfl
  · rintro rfl
    exact word16_append w rest

/-- A long word is what its four bytes say. No other four bytes say the same one. -/
theorem word32_eq_ok {bs rest : Bytes} {w : UInt32} :
    word32 bs = .ok (w, rest) ↔ bs = Bytes.word32 w ++ rest := by
  constructor
  · intro h
    match bs, h with
    | a :: b :: c :: d :: more, h =>
      cases h
      have ha := a.toNat_lt
      have hb := b.toNat_lt
      have hc := c.toNat_lt
      have hd := d.toNat_lt
      have hword : (Bytes.toWord32 a b c d).toNat
          = a.toNat * 16777216 + b.toNat * 65536 + c.toNat * 256 + d.toNat := by
        rw [Bytes.toWord32, UInt32.toNat_ofNat']
        omega
      -- Each byte is the remainder of a quotient of the number that all four make up.
      have hbyte (n : Nat) (x : UInt8) (h : n % 256 = x.toNat) : UInt8.ofNat n = x := by
        apply UInt8.toNat.inj
        rw [UInt8.toNat_ofNat']
        exact h
      rw [Bytes.word32, hword, hbyte _ a (by omega), hbyte _ b (by omega), hbyte _ c (by omega),
        hbyte _ d (by omega)]
      rfl
  · rintro rfl
    exact word32_append w rest

/-- A word of eight bytes is what its two halves say. Both halves are read as words of four
bytes. -/
theorem word64_eq_ok {bs rest : Bytes} {w : UInt64} :
    word64 bs = .ok (w, rest) ↔ bs = Bytes.word64 w ++ rest := by
  constructor
  · intro h
    obtain ⟨high, mid, hhigh, h⟩ := bind_eq_ok.1 h
    obtain ⟨low, mid', hlow, h⟩ := bind_eq_ok.1 h
    cases h
    rw [word32_eq_ok] at hhigh hlow
    subst hlow
    have hhighLt := high.toNat_lt
    have hlowLt := low.toNat_lt
    have hword : (Bytes.toWord64 high low).toNat = high.toNat * 4294967296 + low.toNat := by
      rw [Bytes.toWord64, UInt64.toNat_ofNat']
      omega
    -- The halves come back as quotient and remainder.
    have hfirst : UInt32.ofNat ((Bytes.toWord64 high low).toNat / 4294967296) = high := by
      apply UInt32.toNat.inj
      rw [UInt32.toNat_ofNat', hword]
      omega
    have hsecond : UInt32.ofNat (Bytes.toWord64 high low).toNat = low := by
      apply UInt32.toNat.inj
      rw [UInt32.toNat_ofNat', hword]
      omega
    rw [Bytes.word64, hfirst, hsecond, hhigh, List.append_assoc]
  · rintro rfl
    exact word64_append w rest

/-- A reader of `n` bytes gives and takes `n` bytes. It fails where there are fewer. What follows is
left for the next reader. -/
theorem bytes_eq_ok {n : Nat} {bs taken rest : Bytes} :
    bytes n bs = .ok (taken, rest) ↔ bs = taken ++ rest ∧ taken.length = n := by
  constructor
  · intro h
    unfold bytes at h
    rw [List.splitAt_eq] at h
    simp only at h
    split at h
    · next hlength =>
      cases h
      exact ⟨(List.take_append_drop n bs).symm, hlength⟩
    · cases h
  · rintro ⟨rfl, rfl⟩
    exact bytes_append taken rest

/-- What takes up all bytes. It fails where anything is left. -/
theorem all_eq_ok {p : Reader α} {bs : Bytes} {a : α} : all p bs = .ok a ↔ p bs = .ok (a, []) := by
  unfold all
  rw [ClassLoom.bind_eq_ok]
  constructor
  · rintro ⟨⟨found, rest⟩, hp, h⟩
    obtain ⟨_, hfinish, hend⟩ := ClassLoom.bind_eq_ok.1 h
    cases hend
    cases rest with
    | nil => exact hp
    | cons b rest => cases hfinish
  · intro hp
    exact ⟨(a, []), hp, rfl⟩

/-- Items read behind others are those read alone. The reader collects items backwards, and turns
them around at its end. -/
theorem timesOnto_eq_ok {p : Reader α} {n : Nat} {done : List α} {bs rest : Bytes}
    {items : List α} : timesOnto p n done bs = .ok (items, rest)
      ↔ ∃ more, times n p bs = .ok (more, rest) ∧ items = done.reverse ++ more := by
  induction n generalizing done bs items with
  | zero =>
    simp only [timesOnto, times]
    constructor
    · intro h
      cases h
      exact ⟨[], rfl, by simp⟩
    · rintro ⟨more, h, rfl⟩
      cases h
      simp
  | succ n ih =>
    simp only [timesOnto, times]
    cases p bs with
    | error e =>
      constructor
      · intro h
        cases h
      · rintro ⟨_, h, _⟩
        cases h
    | ok result =>
      obtain ⟨a, mid⟩ := result
      -- The accumulator has the new item on top, so it comes last when the list is turned over.
      simp only [ih]
      constructor
      · rintro ⟨more, h, rfl⟩
        exact ⟨a :: more, ⟨more, h, rfl⟩, by simp⟩
      · rintro ⟨_, ⟨more, h, rfl⟩, rfl⟩
        exact ⟨more, h, by simp⟩

theorem times_succ_eq_ok {p : Reader α} {n : Nat} {bs rest : Bytes} {items : List α} :
    times (n + 1) p bs = .ok (items, rest)
      ↔ ∃ a mid more, p bs = .ok (a, mid) ∧ times n p mid = .ok (more, rest)
        ∧ items = a :: more := by
  unfold times
  simp only [timesOnto]
  cases p bs with
  | error e =>
    constructor
    · intro h
      cases h
    · rintro ⟨_, _, _, h, _⟩
      cases h
  | ok result =>
    obtain ⟨a, mid⟩ := result
    -- What is read behind the first item is read onto it.
    rw [timesOnto_eq_ok]
    constructor
    · rintro ⟨more, h, rfl⟩
      exact ⟨a, mid, more, rfl, h, rfl⟩
    · rintro ⟨_, _, more, hhead, h, rfl⟩
      cases hhead
      exact ⟨more, h, rfl⟩

/-- Where every item is read from its own written form only, so is a row of them. -/
theorem eq_flatMap_of_times {p : Reader α} {write : α → Bytes}
    (hp : ∀ bs a rest, p bs = .ok (a, rest) → bs = write a ++ rest) {n : Nat} {bs rest : Bytes}
    {items : List α} (h : times n p bs = .ok (items, rest)) : bs = items.flatMap write ++ rest := by
  induction n generalizing bs items with
  | zero =>
    cases h
    rfl
  | succ n ih =>
    obtain ⟨a, mid, more, ha, hmore, rfl⟩ := times_succ_eq_ok.1 h
    rw [hp bs a mid ha, ih hmore, List.flatMap_cons, List.append_assoc]

/-- A reader that reads whatever another one does also reads rows of it. -/
theorem times_imp {p q : Reader α}
    (hpq : ∀ bs a rest, p bs = .ok (a, rest) → q bs = .ok (a, rest)) {n : Nat} {bs rest : Bytes}
    {items : List α} (h : times n p bs = .ok (items, rest)) : times n q bs = .ok (items, rest) := by
  induction n generalizing bs items with
  | zero =>
    cases h
    rfl
  | succ n ih =>
    obtain ⟨a, mid, more, ha, hmore, rfl⟩ := times_succ_eq_ok.1 h
    exact times_succ_eq_ok.2 ⟨a, mid, more, hpq bs a mid ha, ih hmore, rfl⟩

theorem length_of_times {p : Reader α} {n : Nat} {bs rest : Bytes} {items : List α}
    (h : times n p bs = .ok (items, rest)) : items.length = n := by
  induction n generalizing bs items with
  | zero =>
    cases h
    rfl
  | succ n ih =>
    obtain ⟨a, mid, more, _, hmore, rfl⟩ := times_succ_eq_ok.1 h
    rw [List.length_cons, ih hmore]

/-- Items that each read back from their own written forms also do in a row, behind items that
were read before. -/
theorem timesOnto_run {p : Reader β} {write : α → Bytes} (value : α → β) {items : List α}
    (hread : ∀ a ∈ items, ∀ rest, p (write a ++ rest) = .ok (value a, rest)) (done : List β)
    (rest : Bytes) :
    timesOnto p items.length done (items.flatMap write ++ rest)
      = .ok (done.reverse ++ items.map value, rest) := by
  induction items generalizing done with
  | nil => simp [timesOnto]
  | cons a items ih =>
    have hhead := hread a (List.mem_cons_self ..) (items.flatMap write ++ rest)
    have htail := ih (fun a' ha' => hread a' (List.mem_cons_of_mem a ha')) (value a :: done)
    rw [List.flatMap_cons, List.append_assoc, List.length_cons, timesOnto, hhead]
    simp only [htail, List.reverse_cons, List.append_assoc, List.map_cons, List.singleton_append]

/-- Items that each read back from their own written forms also do in a row. -/
theorem times_run {p : Reader β} {write : α → Bytes} (value : α → β) {items : List α}
    (hread : ∀ a ∈ items, ∀ rest, p (write a ++ rest) = .ok (value a, rest)) (rest : Bytes) :
    times items.length p (items.flatMap write ++ rest) = .ok (items.map value, rest) :=
  timesOnto_run value hread [] rest

end Reader
end ClassLoom
