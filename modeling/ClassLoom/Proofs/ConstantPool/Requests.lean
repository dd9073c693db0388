import ClassLoom.Proofs.ConstantPool.Interning
import ClassLoom.Proofs.ConstantPool.RoundTrip

/-!
# Requests to a pool

A pool is asked for the slots of constants and symbols, and goes on with what it has where it
has no room (`answerAll`). Each request only appends, so what a pool is stays what it is
(`Intact`), and an answer that was given once is given ever after (`Answers`).

* `Interning.Settles.bind`: a request that is made of others;
* `Reachable.intact`: one constant more, whatever pool there was;
* `answers_of_requests`: any requests, one after the other.
-/

namespace ClassLoom

open ConstantPool
open Interning (Appends)

/-! ## Answers that stay

Asking once more for what has been asked for should give the same index, also when other things have
been interned in between. `Settles` says this of a computation, together with why it may fail; like
`Appends` it is put together from the parts of the computation. -/

/-- Whether a computation that has succeeded gives the same on every later pool, and leaves that
pool as it is. Where it fails it is for want of slots. -/
structure Interning.Settles {α : Type} (x : Interning α) : Prop extends Appends x where
  settled : ∀ {pool pool' later : ConstantPool} {a : α}, Reachable pool →
    x pool = .ok a pool' → Reachable later → Grown pool' later → x later = .ok a later
  overflows : ∀ {pool pool' : ConstantPool} {e : ClassError},
    x pool = .error e pool' → e = .poolOverflow

/-- Two computations one behind the other settle if both do. The first gives on a later pool what it
has given, so that the second is the same computation there. -/
theorem Interning.Settles.bind {α β : Type} {x : Interning α} {f : α → Interning β}
    (hx : Settles x) (hf : ∀ a, Settles (f a)) : Settles (x >>= f) where
  toAppends := hx.toAppends.bind fun a => (hf a).toAppends
  settled hpool h hlater hgrown := by
    obtain ⟨a, mid, ha, hb⟩ := Interning.bind_eq_ok.1 h
    -- What the first part found is there still when the second one is done.
    have hmid := ((hf a).grown_of_ok hb).trans hgrown
    have hagain := (hf a).settled (hx.reachable_of_ok hpool ha) hb hlater hgrown
    exact Interning.bind_eq_ok.2 ⟨a, _, hx.settled hpool ha hlater hmid, hagain⟩
  overflows {pool pool' e} h := by
    have hbind : EStateM.bind x f pool = .error e pool' := h
    unfold EStateM.bind at hbind
    cases hx' : x pool with
    | ok a mid =>
      rw [hx'] at hbind
      exact (hf a).overflows hbind
    | error e' mid =>
      rw [hx'] at hbind
      cases hbind
      exact hx.overflows hx'

namespace ConstantPool

/-- A constant that has a slot keeps it, and interning fails for want of slots only. -/
theorem settles_intern {c : Constant} (hc : c ≠ .unusable) : Interning.Settles (intern c) where
  toAppends := appends_intern hc
  settled hpool h hlater hgrown :=
    intern_of_firstAt hlater.consistent hc ((firstAt_of_intern hpool.consistent hc h).grown hgrown)
  overflows {pool pool' e} h := by
    rw [intern_eq] at h
    split at h
    · cases h
    · exact push_overflows h

theorem settles_internUtf8 (text : String) : Interning.Settles (internUtf8 text) :=
  settles_intern (by simp)

theorem settles_internClass (name : String) : Interning.Settles (internClass name) :=
  (settles_internUtf8 name).bind fun _ => settles_intern (by simp)

theorem settles_internNameAndType (name descriptor : String) :
    Interning.Settles (internNameAndType name descriptor) :=
  (settles_internUtf8 name).bind fun _ =>
    (settles_internUtf8 descriptor).bind fun _ => settles_intern (by simp)

theorem settles_internMember (ref : MemberRef) : Interning.Settles (internMember ref) :=
  (settles_internClass ref.owner).bind fun _ =>
    (settles_internNameAndType ref.name ref.descriptor).bind fun _ =>
      settles_intern (memberConstant_ne_unusable _ _ _)

/-! ## The shape of a pool

Beside the index there is one more thing to get wrong: which slots are unusable. These are the first
one, and those behind longs and doubles. -/

/-- Whether a pool is as it should be: its index finds the first slot of every constant, and the
unusable slots are slot 0 and the second halves of wide constants. -/
structure Intact (pool : ConstantPool) : Prop extends Consistent pool where
  unusable_zero : pool.slots[0]? = some .unusable
  unusable_succ_iff : ∀ n : Nat, pool.slots[n + 1]? = some .unusable
    ↔ ∃ c, pool.slots[n]? = some c ∧ c.isWide

/-- Of the slots that constants take, the second halves of wide ones are unusable. The induction is
over the constants from the last one on, as they were pushed. -/
theorem unusable_iff_isWide {first : Constant} (hfirst : ¬ first.isWide) {cs : List Constant}
    (hcs : ∀ c ∈ cs, c ≠ .unusable) (n : Nat) :
    (first :: cs.flatMap slotsOf)[n + 1]? = some .unusable
      ↔ ∃ c, (first :: cs.flatMap slotsOf)[n]? = some c ∧ c.isWide := by
  induction cs generalizing first n with
  | nil => cases n <;> simp [hfirst]
  | cons c cs ih =>
    obtain ⟨hc, hcs⟩ := List.forall_mem_cons.1 hcs
    by_cases hwide : c.isWide
    · have hslots : (c :: cs).flatMap slotsOf = c :: .unusable :: cs.flatMap slotsOf := by
        rw [List.flatMap_cons, slotsOf, if_pos hwide]
        rfl
      rw [hslots]
      -- Behind a wide constant two slots have been passed, behind any other one.
      match n with
      | 0 => simp [hfirst, hc]
      | 1 => simp [hwide]
      | n + 2 => exact ih (by decide) hcs n
    · have hslots : (c :: cs).flatMap slotsOf = c :: cs.flatMap slotsOf := by
        rw [List.flatMap_cons, slotsOf, if_neg hwide]
        rfl
      rw [hslots]
      match n with
      | 0 => simp [hfirst, hc]
      | n + 1 => exact ih hwide hcs n

/-- **Every pool is intact.** Its slots are what its constants take, in order. -/
theorem Reachable.intact {pool : ConstantPool} (h : Reachable pool) : pool.Intact := by
  obtain ⟨cs, hpushed⟩ := h.exists_pushed
  have hslots : pool.slots.toList = .unusable :: cs.flatMap slotsOf := hpushed.slots
  refine ⟨h.consistent, ?_, fun n => ?_⟩
  · rw [← Array.getElem?_toList, hslots]
    rfl
  · simp only [← Array.getElem?_toList, hslots]
    exact unusable_iff_isWide (by decide) hpushed.usable n

/-! ## Requests

Everything that a pool can be asked for, as one type. What holds of every request holds of any run
of them, failures included. -/

/-- What a pool can be asked to have a slot for. -/
inductive Request where
  | constant (c : Constant)
  | text (text : String)
  | className (name : String)
  | nameAndType (name descriptor : String)
  | field (owner name descriptor : String)
  | method (owner name descriptor : String) (ofInterface : Bool)

namespace Request

/-- The slot of what is asked for. -/
def run : Request → Interning UInt16
  | constant c => intern c
  | text t => internUtf8 t
  | className name => internClass name
  | nameAndType name descriptor => internNameAndType name descriptor
  | field owner name descriptor => internField owner name descriptor
  | method owner name descriptor ofInterface => internMethod owner name descriptor ofInterface

/-- Whether what is asked for may have a slot of its own: all but the unusable slot. -/
def IsUsable : Request → Prop
  | constant c => c ≠ .unusable
  | _ => True

/-- Whether an index stands for what was asked for, by the look-up of its kind. -/
def Answered (pool : ConstantPool) (i : UInt16) : Request → Prop
  | constant c => pool.get i = .ok c
  | text t => pool.getUtf8 i = .ok t
  | className name => pool.getClassName i = .ok name
  | nameAndType name descriptor => pool.getNameAndType i = .ok (name, descriptor)
  | field owner name descriptor =>
    pool.getMember i = .ok { kind := .field, owner, name, descriptor }
  | method owner name descriptor ofInterface => pool.getMember i = .ok
    { kind := if ofInterface then .interfaceMethod else .method, owner, name, descriptor }

/-- Whatever may be asked for is settled by asking. -/
theorem settles_run {r : Request} (hr : r.IsUsable) : Interning.Settles r.run :=
  match r, hr with
  | constant _, hc => settles_intern hc
  | text t, _ => settles_internUtf8 t
  | className name, _ => settles_internClass name
  | nameAndType name descriptor, _ => settles_internNameAndType name descriptor
  | field _ _ _, _ => settles_internMember _
  | method _ _ _ _, _ => settles_internMember _

/-- What is asked for is found under the index that it got. -/
theorem answered_of_run {r : Request} (hr : r.IsUsable) {pool pool' : ConstantPool} {i : UInt16}
    (hpool : Reachable pool) (h : r.run pool = .ok i pool') : r.Answered pool' i := by
  cases r with
  | constant c => exact intern_spec hpool.consistent.located hr h
  | text t => exact internUtf8_spec hpool.consistent.located h
  | className name => exact internClass_spec hpool h
  | nameAndType name descriptor => exact internNameAndType_spec hpool h
  | field | method => exact internMember_spec hpool h

theorem grown_after_run (r : Request) (pool : ConstantPool) : Grown pool (after r.run pool) := by
  cases r with
  | constant c => exact grown_after_intern pool c
  | _ => exact (settles_run (by trivial)).grown pool

/-- A request keeps the index of the pool right, even one for an unusable slot. -/
theorem located_after_run (r : Request) {pool : ConstantPool} (hpool : pool.Located) :
    (after r.run pool).Located := by
  cases r with
  | constant c => exact located_after_intern hpool c
  | _ => exact (settles_run (by trivial)).located pool hpool

end Request

/-! ## Requests one after the other

Requests may fail, and asking goes on with the pool that is left. So the pools in question are those
behind any list of requests, whether they were met or not. -/

/-- The pool behind requests, each of them met or not. -/
def answerAll (requests : List Request) (pool : ConstantPool) : ConstantPool :=
  requests.foldl (fun pool r => after r.run pool) pool

/-- Requests only append, all of them together. -/
theorem grown_answerAll (requests : List Request) (pool : ConstantPool) :
    Grown pool (answerAll requests pool) := by
  induction requests generalizing pool with
  | nil => exact Grown.refl pool
  | cons r requests ih => exact (r.grown_after_run pool).trans (ih _)

/-- They keep the index right. -/
theorem located_answerAll (requests : List Request) {pool : ConstantPool}
    (hpool : pool.Located) : (answerAll requests pool).Located := by
  induction requests generalizing pool with
  | nil => exact hpool
  | cons r requests ih => exact ih (r.located_after_run hpool)

/-- Requests for what may be asked for lead to pools that there are. -/
theorem reachable_answerAll {requests : List Request} (hrequests : ∀ r ∈ requests, r.IsUsable)
    {pool : ConstantPool} (hpool : Reachable pool) : Reachable (answerAll requests pool) := by
  induction requests generalizing pool with
  | nil => exact hpool
  | cons r requests ih =>
    obtain ⟨hr, hrequests⟩ := List.forall_mem_cons.1 hrequests
    exact ih hrequests ((Request.settles_run hr).reachable pool hpool)

/-- Whether a pool answers a request as it should. Whether it has room or not, it only appends;
where it fails it is for want of slots. The index that it gives stands for what was asked for,
then and after all requests to come, and is given again at no cost. -/
structure Request.Answers (r : Request) (pool : ConstantPool) : Prop where
  grown : Grown pool (after r.run pool)
  overflows : ∀ e pool', r.run pool = .error e pool' → e = .poolOverflow
  answered : ∀ i pool', r.run pool = .ok i pool' → ∀ more : List Request,
    (∀ r ∈ more, r.IsUsable) → r.Answered (answerAll more pool') i
  again : ∀ i pool', r.run pool = .ok i pool' → ∀ more : List Request,
    (∀ r ∈ more, r.IsUsable) → r.run (answerAll more pool') = .ok i (answerAll more pool')

/-- Every pool answers every request as it should. -/
theorem Reachable.answers {pool : ConstantPool} (hpool : Reachable pool) {r : Request}
    (hr : r.IsUsable) : r.Answers pool := by
  have hsettles := Request.settles_run hr
  have hagain {i : UInt16} {pool' : ConstantPool} (h : r.run pool = .ok i pool')
      {more : List Request} (hmore : ∀ r ∈ more, r.IsUsable) :
      Reachable (answerAll more pool')
        ∧ r.run (answerAll more pool') = .ok i (answerAll more pool') := by
    have hlater := reachable_answerAll hmore (hsettles.reachable_of_ok hpool h)
    exact ⟨hlater, hsettles.settled hpool h hlater (grown_answerAll more pool')⟩
  exact {
    grown := hsettles.grown pool
    overflows := fun _ _ => hsettles.overflows
    answered := fun i pool' h more hmore =>
      Request.answered_of_run hr (hagain h hmore).1 (hagain h hmore).2
    again := fun i pool' h more hmore => (hagain h hmore).2 }

/-- **Pools stay intact, and what they have answered they answer ever after.** The pool behind some
requests is one of those that there are, so all is said about it already. -/
theorem answers_of_requests {start : ConstantPool}
    (hstart : start = empty ∨ ∃ bs rest, read bs = .ok (start, rest)) {requests : List Request}
    (hrequests : ∀ r ∈ requests, r.IsUsable) :
    (answerAll requests start).Intact
      ∧ ∀ r : Request, r.IsUsable → r.Answers (answerAll requests start) := by
  have hreachable : Reachable start := by
    rcases hstart with rfl | ⟨bs, rest, hread⟩
    · exact .empty
    · exact .read hread
  have hlast := reachable_answerAll hrequests hreachable
  exact ⟨hlast.intact, fun r hr => hlast.answers hr⟩

/-- A pool that is read with a text in two slots and a wide constant behind them. -/
theorem answers_of_requests_read : ∃ start rest,
    read [0, 5, 1, 0, 1, 65, 1, 0, 1, 65, 5, 0, 0, 0, 0, 0, 0, 0, 7] = .ok (start, rest)
      ∧ (answerAll [.className "A", .constant (.double 0), .method "A" "f" "()V" true] start).Intact
      ∧ ∀ r : Request, r.IsUsable → r.Answers
        (answerAll [.className "A", .constant (.double 0), .method "A" "f" "()V" true] start) := by
  have hread : (read [0, 5, 1, 0, 1, 65, 1, 0, 1, 65, 5, 0, 0, 0, 0, 0, 0, 0, 7]).isOk := by
    decide +kernel
  cases h : read [0, 5, 1, 0, 1, 65, 1, 0, 1, 65, 5, 0, 0, 0, 0, 0, 0, 0, 7] with
  | error e =>
    rw [h] at hread
    cases hread
  | ok result =>
    refine ⟨result.1, result.2, rfl, answers_of_requests (.inr ⟨_, _, h⟩) ?_⟩
    simp [Request.IsUsable]

end ConstantPool
end ClassLoom
