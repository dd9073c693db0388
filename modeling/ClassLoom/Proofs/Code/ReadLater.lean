import ClassLoom.Proofs.Code.RoundTrip
import ClassLoom.Proofs.ConstantPool.Requests

/-!
# What is written stays readable

The payloads of attributes hold indices of the pool that was there when they were written. As
slots never move, a body or a table of variables means the same ever after, whatever the pool is
asked for in between.

* `Attribute.replaces_set`: what becomes of the attributes of a method that is given a body;
* `read_later`: bodies and tables of variables, in every pool.
-/

namespace ClassLoom

open ConstantPool

namespace Attribute

/-- Whether the first attribute of the given name has been replaced in its place, or one has been
appended where there was none. -/
inductive Replaces (name : String) (old new : List Attribute) : Prop where
  | replaced (front back : List Attribute) (a b : Attribute)
    (hold : old = front ++ a :: back) (hfirst : ∀ x ∈ front, x.name ≠ name)
    (ha : a.name = name) (hb : b.name = name) (hnew : new = front ++ b :: back)
  | appended (b : Attribute) (hnone : ∀ x ∈ old, x.name ≠ name) (hb : b.name = name)
    (hnew : new = old ++ [b])

/-- Setting an attribute replaces the first one of its name, or appends one. The others keep their
places and their payloads. -/
theorem replaces_set (name : String) (info : Bytes) (attributes : List Attribute) :
    Replaces name attributes (set name info attributes) := by
  induction attributes with
  | nil => exact .appended { name, info } (by simp) rfl rfl
  | cons a rest ih =>
    unfold set
    split
    · next ha => exact .replaced [] rest a { a with info } rfl (by simp) ha ha rfl
    · next ha =>
      cases ih with
      | replaced front back a' b hold hfirst ha' hb hnew =>
        refine .replaced (a :: front) back a' b (by rw [hold]; rfl) ?_ ha' hb (by rw [hnew]; rfl)
        exact List.forall_mem_cons.2 ⟨ha, hfirst⟩
      | appended b hnone hb hnew =>
        exact .appended b (List.forall_mem_cons.2 ⟨ha, hnone⟩) hb (by rw [hnew]; rfl)

end Attribute

/-- Whether a method is another one that has been given the body `code`: the body is read from
it, now and after all requests to come, and nothing else about the method is different. -/
structure Member.GivenBody (old new : Member) (code : Code) (pool : ConstantPool) : Prop where
  code? : ∀ more : List Request, new.code? (answerAll more pool) = .ok (some code)
  signature : { new with attributes := old.attributes } = old
  attributes : Attribute.Replaces Code.attributeName old.attributes new.attributes

/-- A method that is given a body has it, now and later, and all else as before. -/
theorem Member.givenBody_setCode {m m' : Member} {code : Code} {pool pool' : ConstantPool}
    (hcode : code.bytecode ≠ []) (hpool : pool.Located)
    (h : m.setCode code pool = .ok m' pool') : m.GivenBody m' code pool' := by
  obtain ⟨info, _, rfl⟩ := setCode_eq_ok h
  exact {
    code? := fun more => code?_setCode hcode hpool h (grown_answerAll more pool')
    signature := rfl
    attributes := Attribute.replaces_set _ info m.attributes }

/-- **Bodies and tables of variables stay readable** in every pool, also in one that was asked
for unusable slots. -/
theorem read_later {start : ConstantPool}
    (hstart : start = empty ∨ ∃ bs rest, ConstantPool.read bs = .ok (start, rest))
    (requests : List Request) :
    (∀ (m m' : Member) (code : Code) (pool' : ConstantPool), code.bytecode ≠ [] →
      m.setCode code (answerAll requests start) = .ok m' pool' → m.GivenBody m' code pool')
    ∧ ∀ (entries : List LocalVariable) (info : Bytes) (pool' : ConstantPool),
      LocalVariable.tableBytes entries (answerAll requests start) = .ok info pool' →
      ∀ more : List Request,
        LocalVariable.parseTable (answerAll more pool') info = .ok entries := by
  have hstart : Reachable start := by
    rcases hstart with rfl | ⟨bs, rest, hread⟩
    · exact .empty
    · exact .read hread
  have hpool := located_answerAll requests hstart.consistent.located
  constructor
  · intro m m' code pool' hcode h
    exact Member.givenBody_setCode hcode hpool h
  · intro entries info pool' h more
    exact LocalVariable.parseTable_tableBytes hpool h (grown_answerAll more pool')

/-- A method that gets a body in front of another attribute, in a pool that was asked for an
unusable slot, and a table of one variable. -/
theorem read_later_beside_attributes :
    let m : Member :=
      { access := 1, name := "m", descriptor := "()V"
        attributes := [{ name := "Code", info := [] }, { name := "Deprecated", info := [] }] }
    let code : Code :=
      { maxStack := 0, maxLocals := 1, bytecode := [0xb1]
        attributes := [{ name := "Deprecated", info := [] }] }
    let entries : List LocalVariable :=
      [{ start := 0, length := 1, name := "this", descriptor := "LA;", slot := 0 }]
    let pool := answerAll [.constant .unusable, .text "this"] empty
    (∃ m' pool', m.setCode code pool = .ok m' pool' ∧ m.GivenBody m' code pool')
      ∧ ∃ info pool', LocalVariable.tableBytes entries pool = .ok info pool'
        ∧ ∀ more : List Request,
          LocalVariable.parseTable (answerAll more pool') info = .ok entries := by
  intro m code entries pool
  obtain ⟨hbodies, hvariables⟩ := read_later (.inl rfl) [.constant .unusable, .text "this"]
  -- Writing is evaluated; that it is read later, in any pool, is the theorem's part.
  constructor
  · have hset : (match m.setCode code pool with
        | .ok _ _ => true
        | .error _ _ => false) = true := by
      decide +kernel
    split at hset
    · next m' pool' h => exact ⟨m', pool', h, hbodies m m' code pool' (by decide) h⟩
    · cases hset
  · have htable : (match LocalVariable.tableBytes entries pool with
        | .ok _ _ => true
        | .error _ _ => false) = true := by
      decide +kernel
    split at htable
    · next info pool' h => exact ⟨info, pool', h, hvariables entries info pool' h⟩
    · cases htable

end ClassLoom
