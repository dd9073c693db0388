import ClassLoom.Proofs.Code.RoundTrip

/-!
# Members with other bodies

A method that is given another body stays what it is but for the payload of one attribute
(`Member.Rebodied`).

* `Member.rebodied_of_setCode`: a new body for a method that has one;
* `Member.eq_of_setCode`: the first body of a method.
-/

namespace ClassLoom

open ConstantPool

/-- Whether a member has come from another one by no more than a new payload for its body. -/
structure Member.Rebodied (old new : Member) : Prop where
  access : new.access = old.access
  name : new.name = old.name
  descriptor : new.descriptor = old.descriptor
  attributes : List.Forall₂
    (fun a a' : Attribute => a'.name = a.name ∧ (a.name ≠ Code.attributeName → a' = a))
    old.attributes new.attributes

/-- Giving an attribute that is there a new payload changes no other one. Only the first attribute
of the name is touched. -/
theorem Attribute.forall₂_set {name : String} {attributes : List Attribute} {a : Attribute}
    (h : find? name attributes = some a) (info : Bytes) :
    List.Forall₂ (fun a a' : Attribute => a'.name = a.name ∧ (a.name ≠ name → a' = a))
      attributes (set name info attributes) := by
  induction attributes with
  | nil => cases h
  | cons first rest ih =>
    unfold set
    by_cases hname : first.name = name
    · rw [if_pos hname]
      refine .cons ⟨rfl, fun hne => absurd hname hne⟩ ?_
      exact List.forall₂_same.2 fun _ _ => ⟨rfl, fun _ => rfl⟩
    · rw [if_neg hname]
      refine .cons ⟨rfl, fun _ => rfl⟩ (ih ?_)
      unfold find? at h ⊢
      rwa [List.find?_cons_of_neg (by simpa using hname)] at h

namespace Member

variable {m m' : Member} {code : Code} {pool pool' : ConstantPool}

namespace Rebodied

theorem refl (m : Member) : Rebodied m m :=
  ⟨rfl, rfl, rfl, List.forall₂_same.2 fun _ _ => ⟨rfl, fun _ => rfl⟩⟩

/-- What has come from a member in two steps has come from it. -/
theorem trans {a b c : Member} (hab : Rebodied a b) (hbc : Rebodied b c) : Rebodied a c where
  access := hbc.access.trans hab.access
  name := hbc.name.trans hab.name
  descriptor := hbc.descriptor.trans hab.descriptor
  attributes := by
    refine forall₂_trans ?_ hab.attributes hbc.attributes
    intro x y z hxy hyz
    refine ⟨hyz.1.trans hxy.1, fun hne => ?_⟩
    rw [← hxy.2 hne, hyz.2 (hxy.1 ▸ hne)]

/-- The names of the attributes are the same, in order. -/
theorem attributeNames {old new : Member} (h : Rebodied old new) :
    new.attributes.map (·.name) = old.attributes.map (·.name) := by
  have hnames := h.attributes
  generalize new.attributes = attributes at hnames ⊢
  generalize old.attributes = attributes' at hnames ⊢
  induction hnames with
  | nil => rfl
  | cons hhead _ ih => rw [List.map_cons, List.map_cons, hhead.1, ih]

end Rebodied

/-- A new body for a member that has one. -/
theorem rebodied_of_setCode {old : Code} (hold : m.code? pool = .ok (some old))
    {pool₁ pool₂ : ConstantPool} (h : m.setCode code pool₁ = .ok m' pool₂) : Rebodied m m' := by
  obtain ⟨info, _, rfl⟩ := setCode_eq_ok h
  unfold code? at hold
  split at hold
  · next a ha => exact ⟨rfl, rfl, rfl, Attribute.forall₂_set ha info⟩
  · cases hold

/-- A member that is given a first attribute, its body. -/
theorem eq_of_setCode {m m' : Member} {code : Code} (hm : m.attributes = [])
    (h : m.setCode code pool = .ok m' pool') :
    ∃ info, m' = { m with attributes := [{ name := Code.attributeName, info }] } := by
  obtain ⟨info, _, rfl⟩ := setCode_eq_ok h
  rw [hm]
  exact ⟨info, rfl⟩

end Member

end ClassLoom
