import ClassLoom.Proofs.Weave.Kept
import ClassLoom.Proofs.Weave.RedirectedClass

/-!
# Methods that a class keeps

No step of weaving renames a method. Preparing a class and redirecting its calls keep all that
it declares, and narrowing takes nothing but a carrier's old factory.

* `declares_prepare`, `declares_redirectCalls`: the steps that keep everything;
* `declares_narrowCarrier`: the one that does not.
-/

namespace ClassLoom

open ConstantPool

/-- Whether a class declares a method. -/
def ClassFile.Declares (c : ClassFile) (name descriptor : String) : Prop :=
  ∃ m ∈ c.methods, m.name = name ∧ m.descriptor = descriptor

instance (c : ClassFile) (name descriptor : String) : Decidable (c.Declares name descriptor) :=
  inferInstanceAs (Decidable (∃ m ∈ c.methods, m.name = name ∧ m.descriptor = descriptor))

namespace Weave

variable {s : Surroundings} {c : ClassFile} {name descriptor : String}

/-! ## Preparing and redirecting

Neither of the first two phases takes a method away. -/

/-- Methods that are kept are declared afterwards. -/
theorem KeepsAll.declares {conventions : Conventions} {old new : ClassFile}
    (h : KeepsAll conventions old new) (hdeclares : old.Declares name descriptor) :
    new.Declares name descriptor := by
  obtain ⟨m, hm, rfl, rfl⟩ := hdeclares
  obtain ⟨m', hm', hsame⟩ := h.methods.exists_of_mem hm
  exact ⟨m', hm', hsame.name, hsame.descriptor⟩

theorem declares_prepare (h : c.Declares name descriptor) :
    (prepare s c).1.Declares name descriptor :=
  (prepare_keepsAll s c).declares h

theorem declares_redirectCalls (h : c.Declares name descriptor) :
    (redirectCalls s c).1.Declares name descriptor :=
  (redirectCalls_keepsAll s.conventions s c).declares h

/-! ## Narrowing

The third phase takes methods away, all at once by their name, and only where there is something to
call instead. -/

/-- Whether a class is a lambda carrier with a replacement factory. -/
def HasReplacementFactory (conventions : Conventions) (c : ClassFile) : Prop :=
  conventions.isLambdaCarrier c.name = true
    ∧ ∃ m ∈ c.methods, m.name = conventions.replacementFactory

/-- **Narrowing takes methods from carriers only** that have a replacement factory, and leaves
them that. -/
theorem declares_narrowCarrier
    (hfactory : s.conventions.replacementFactory ≠ s.conventions.lambdaFactory)
    (h : c.Declares name descriptor) : (narrowCarrier s c).Declares name descriptor
      ∨ HasReplacementFactory s.conventions (narrowCarrier s c) := by
  unfold narrowCarrier
  cases hpolyfill : carrierPolyfill? s c with
  | none => exact .inl h
  | some polyfill =>
    simp only
    split
    · next hprepared =>
      rw [Bool.and_eq_true, List.any_eq_true] at hprepared
      obtain ⟨⟨m, hm, hname⟩, _⟩ := hprepared
      have hname := of_decide_eq_true hname
      have hcarrier := isLambdaCarrier_of_carrierPolyfill? hpolyfill
      refine .inr ⟨hcarrier, m, ?_, hname⟩
      exact List.mem_filter.2 ⟨hm, by simpa [hname] using hfactory⟩
    · exact .inl h

/-- A narrowed class has no other methods and bodies than before. -/
theorem mem_methods_of_narrowCarrier {m : Member} (h : m ∈ (narrowCarrier s c).methods) :
    m ∈ c.methods := by
  unfold narrowCarrier at h
  split at h
  · exact h
  · split at h
    · exact (List.mem_filter.1 h).1
    · exact h

/-- Narrowing keeps the name of the class. -/
theorem narrowCarrier_name (s : Surroundings) (c : ClassFile) :
    (narrowCarrier s c).name = c.name := by
  unfold narrowCarrier
  split
  · rfl
  · split <;> rfl

end Weave

/-! ## Bodies in pools that have grown

Bodies are read in the pool of the class, which has grown since they were written. -/

section Grown

variable {pool pool' : ConstantPool}

/-- Attributes are read in a grown pool as before. -/
theorem Attribute.readTable_grown (hgrown : Grown pool pool') {bs rest : Bytes}
    {attributes : List Attribute} (h : readTable pool bs = .ok (attributes, rest)) :
    readTable pool' bs = .ok (attributes, rest) := by
  obtain ⟨raw, hraw, hdenotes⟩ := (IndexedAttribute.readsAs pool).table.1 h
  exact (IndexedAttribute.readsAs pool').table.2
    ⟨raw, hraw, hdenotes.imp fun _ _ h => ⟨hgrown.getUtf8 h.name, h.info⟩⟩

/-- A body is read in a grown pool as before. Names of attributes are all that is looked up. -/
theorem Code.parse_grown (hgrown : Grown pool pool') {info : Bytes} {code : Code}
    (h : parse pool info = .ok code) : parse pool' info = .ok code := by
  rw [parse, Reader.all_eq_ok] at h ⊢
  obtain ⟨maxStack, mid₁, hstack, h⟩ := Reader.bind_eq_ok.1 h
  obtain ⟨maxLocals, mid₂, hlocals, h⟩ := Reader.bind_eq_ok.1 h
  obtain ⟨length, mid₃, hlength, h⟩ := Reader.bind_eq_ok.1 h
  unfold read
  rw [Reader.bind_run hstack, Reader.bind_run hlocals, Reader.bind_run hlength]
  split at h
  · cases h
  · next hfits =>
    obtain ⟨bytecode, mid₄, hbytecode, h⟩ := Reader.bind_eq_ok.1 h
    obtain ⟨handlers, mid₅, hhandlers, h⟩ := Reader.bind_eq_ok.1 h
    obtain ⟨attributes, mid₆, hattributes, hend⟩ := Reader.bind_eq_ok.1 h
    rw [if_neg hfits]
    refine Reader.bind_eq_ok.2 ⟨bytecode, mid₄, hbytecode, ?_⟩
    refine Reader.bind_eq_ok.2 ⟨handlers, mid₅, hhandlers, ?_⟩
    -- Only the names of the attributes are looked up.
    exact Reader.bind_eq_ok.2
      ⟨attributes, mid₆, Attribute.readTable_grown hgrown hattributes, hend⟩

/-- The body of a method, or that it has none, is read in a grown pool as before. So what a step
finds in a method does not depend on the methods before it. -/
theorem Member.code?_grown (hgrown : Grown pool pool') {m : Member} {found : Option Code}
    (h : m.code? pool = .ok found) : m.code? pool' = .ok found := by
  unfold code? at h ⊢
  split at h
  · next a _ =>
    cases hparse : Code.parse pool a.info with
    | error e =>
      rw [hparse] at h
      cases h
    | ok code =>
      rw [hparse] at h
      cases h
      rw [Code.parse_grown hgrown hparse]
      rfl
  · exact h

end Grown
end ClassLoom
