import ClassLoom.Proofs.Descriptor.Printed
import ClassLoom.Proofs.Weave.Preparation
import Mathlib.Data.List.TakeWhile

/-!
# Substituted types

The name of a polyfill tells which class it stands in for, whatever the namespace and the prefix
are: both only put something between the parts of a name, and no part has a slash where another
one would have to end. As polyfills have none of their own, substituting a second time changes
nothing.

* `Conventions.polyfillName_injective`: distinct names have distinct polyfills;
* `Surroundings.substituted_substitute`: what becomes of a type (`Substituted`);
* `Surroundings.substituteAll_substituted`: the same of all types in a descriptor.
-/

namespace ClassLoom

/-! ## Names of polyfills

Behind the namespace, the name of a polyfill has the prefix between the package and the simple name
of the class. The prefix may be any text, one with slashes, too; but a simple name has none, so the
parts around the prefix can be told. -/

namespace InternalName

/-- What stands in front of a simple name: nothing, or something that ends with a slash. -/
def IsPackage (front : List Char) : Prop := front = [] ∨ ∃ package, front = package ++ ['/']

/-- A name that is split has its last slash where it is split: there is none in the simple name. -/
theorem split?_eq_some {name package simple : String} (h : split? name = some (package, simple)) :
    name.toList = package.toList ++ '/' :: simple.toList ∧ '/' ∉ simple.toList := by
  unfold split? at h
  simp only at h
  split at h
  · next slash front hdrop =>
    simp only [Option.some.injEq, Prod.mk.injEq] at h
    obtain ⟨rfl, rfl⟩ := h
    have hname := congrArg List.reverse (eq_takeWhile_append_cons hdrop)
    rw [List.reverse_reverse, List.reverse_append, List.reverse_cons, List.append_assoc,
      List.singleton_append] at hname
    rw [String.toList_ofList, String.toList_ofList]
    refine ⟨hname, ?_⟩
    rw [List.mem_reverse]
    intro hmem
    simpa using List.mem_takeWhile_imp hmem
  · cases h

/-- A name that is not split has no slash. -/
theorem split?_eq_none {name : String} (h : split? name = none) : '/' ∉ name.toList := by
  unfold split? at h
  simp only at h
  split at h
  · cases h
  · next hdrop =>
    intro hmem
    have hall := List.dropWhile_eq_nil_iff.1 hdrop '/' (List.mem_reverse.2 hmem)
    simp at hall

/-- Of two splits of a text around the same middle part, the one further behind is no other if what
is behind both middle parts has no slash. -/
theorem eq_nil_of_split {front extra middle back back' : List Char}
    (hpackage : IsPackage (front ++ extra)) (hback : '/' ∉ back) (hback' : '/' ∉ back')
    (h : extra ++ (middle ++ back) = middle ++ back') : extra = [] := by
  -- Both sides have as many slashes, so there is none left for `extra` to end with.
  have hcount := congrArg (List.count '/') h
  rw [List.count_append, List.count_append, List.count_append, List.count_eq_zero.2 hback,
    List.count_eq_zero.2 hback'] at hcount
  have hnone : '/' ∉ extra := List.count_eq_zero.1 (by omega)
  rcases List.eq_nil_or_concat extra with hnil | ⟨init, last, rfl⟩
  · exact hnil
  · rcases hpackage with hnil | ⟨package, hpackage⟩
    · simp at hnil
    · rw [List.concat_eq_append, ← List.append_assoc] at hpackage
      have hlast := (List.append_inj' hpackage rfl).2
      rw [List.singleton_inj] at hlast
      simp [hlast] at hnone

/-- A text is split in one way only, around a middle part behind which there is no slash. -/
theorem eq_of_split {front front' middle back back' : List Char} (hfront : IsPackage front)
    (hfront' : IsPackage front') (hback : '/' ∉ back) (hback' : '/' ∉ back')
    (h : front ++ (middle ++ back) = front' ++ (middle ++ back')) :
    front = front' ∧ back = back' := by
  have hsame : front = front' := by
    rcases List.append_eq_append_iff.1 h with ⟨extra, rfl, hextra⟩ | ⟨extra, rfl, hextra⟩
    · rw [eq_nil_of_split hfront' hback' hback hextra.symm, List.append_nil]
    · rw [eq_nil_of_split hfront hback hback' hextra.symm, List.append_nil]
  subst hsame
  exact ⟨rfl, List.append_cancel_left (List.append_cancel_left h)⟩

end InternalName

namespace Conventions

open InternalName (IsPackage)

/-- Where the parts of a name are found in that of its polyfill. Two classes with one polyfill name
are seen to be the same in this way. -/
theorem polyfillName_parts (conventions : Conventions) (name : String) :
    ∃ front simple, IsPackage front ∧ '/' ∉ simple ∧ name.toList = front ++ simple
      ∧ (conventions.polyfillName name).toList = (conventions.polyfillNamespace ++ "/").toList
        ++ (front ++ (conventions.replacementPrefix.toList ++ simple)) := by
  unfold polyfillName
  split
  · next package simple hsplit =>
    obtain ⟨hname, hsimple⟩ := InternalName.split?_eq_some hsplit
    refine ⟨package.toList ++ ['/'], simple.toList, .inr ⟨_, rfl⟩, hsimple, by simp [hname], ?_⟩
    simp only [String.toList_append, List.append_assoc]
    rfl
  · next hnone =>
    refine ⟨[], name.toList, .inl rfl, InternalName.split?_eq_none hnone, rfl, ?_⟩
    simp only [String.toList_append, List.append_assoc, List.nil_append]

/-- **Distinct names have distinct polyfills.** -/
theorem polyfillName_injective (conventions : Conventions) :
    Function.Injective conventions.polyfillName := by
  intro name other hsame
  obtain ⟨front, simple, hfront, hsimple, hname, hpolyfill⟩ := conventions.polyfillName_parts name
  obtain ⟨front', simple', hfront', hsimple', hother, hpolyfill'⟩ :=
    conventions.polyfillName_parts other
  rw [hsame, hpolyfill'] at hpolyfill
  obtain ⟨rfl, rfl⟩ := InternalName.eq_of_split hfront hfront' hsimple hsimple'
    (List.append_cancel_left hpolyfill).symm
  exact String.toList_inj.1 (hname.trans hother.symm)

end Conventions

namespace Surroundings

variable {s : Surroundings}

/-- **A polyfill has no polyfill.** -/
theorem polyfill?_of_isPolyfill {name : String} (h : s.conventions.isPolyfill name = true) :
    s.polyfill? name = none := by
  unfold polyfill?
  rw [if_pos (by simp [h])]

theorem polyfill?_name {name : String} {polyfill : Polyfill}
    (h : s.polyfill? name = some polyfill) : s.polyfill? polyfill.name = none := by
  rw [name_of_polyfill? h]
  exact polyfill?_of_isPolyfill (s.conventions.isPolyfill_polyfillName name)

end Surroundings

/-! ## Types

Only classes are substituted, also inside arrays. All else of a type stays, so that types keep their
widths, and descriptors their slots. -/

namespace FieldType

/-- How many array types are around the innermost type. -/
def dimensions : FieldType → Nat
  | array component => component.dimensions + 1
  | _ => 0

/-- The innermost type, which is that of no array. -/
def element : FieldType → FieldType
  | array component => component.element
  | t => t

end FieldType

/-- Whether `t'` is what becomes of the type `t` where classes are substituted: arrays of the same
depth, of the same primitive type, or of the polyfill of the same class if it has one. -/
structure Substituted (s : Surroundings) (t t' : FieldType) : Prop where
  dimensions : t'.dimensions = t.dimensions
  width : t'.width = t.width
  primitive : ∀ type, t.element = .base type → t' = t
  resolved : ∀ name polyfill, t.element = .object name → s.polyfill? name = some polyfill →
    t'.element = .object polyfill.name ∧ t' ≠ t
  unresolved : ∀ name, t.element = .object name → s.polyfill? name = none → t' = t

/-- Whether `d'` is what becomes of the descriptor `d`, type by type. -/
structure SubstitutedAll (s : Surroundings) (d d' : MethodDescriptor) : Prop where
  params : List.Forall₂ (Substituted s) d.params d'.params
  paramSlots : d'.paramSlots = d.paramSlots
  void : d'.result = .void ↔ d.result = .void
  result : ∀ t, d.result = .value t → ∃ t', d'.result = .value t' ∧ Substituted s t t'

namespace Surroundings

variable (s : Surroundings)

/-- A substituted type takes as many slots. -/
theorem width_substitute (t : FieldType) : (s.substitute t).width = t.width := by
  cases t with
  | base type => rfl
  | object name =>
    unfold substitute
    split <;> rfl
  | array component => rfl

/-- **What becomes of a type.** Arrays keep their depth and primitive types stay; a class goes to
its polyfill if it has one, and stays otherwise. -/
theorem substituted_substitute (t : FieldType) : Substituted s t (s.substitute t) := by
  induction t with
  | base type =>
    exact ⟨rfl, rfl, fun _ _ => rfl, nofun, nofun⟩
  | object name =>
    have hwidth := s.width_substitute (.object name)
    unfold substitute at hwidth ⊢
    cases hfound : s.polyfill? name with
    | none =>
      refine ⟨rfl, rfl, fun _ _ => rfl, fun name' polyfill hname hpolyfill => ?_, fun _ _ _ => rfl⟩
      cases hname
      rw [hfound] at hpolyfill
      cases hpolyfill
    | some polyfill =>
      refine ⟨rfl, rfl, nofun, fun name' polyfill' hname hpolyfill => ?_,
        fun name' hname hnone => ?_⟩
      · cases hname
        rw [hfound] at hpolyfill
        cases hpolyfill
        refine ⟨rfl, fun hsame => ?_⟩
        exact polyfill?_name_ne hfound (FieldType.object.inj hsame)
      · cases hname
        rw [hfound] at hnone
        cases hnone
  | array component ih =>
    -- An array has the innermost type of its components, and what is said of that one is known.
    refine ⟨congrArg (· + 1) ih.dimensions, rfl, fun type h => ?_, fun name polyfill h hfound => ?_,
      fun name h hnone => ?_⟩
    · exact congrArg FieldType.array (ih.primitive type h)
    · obtain ⟨helement, hne⟩ := ih.resolved name polyfill h hfound
      exact ⟨helement, fun hsame => hne (FieldType.array.inj hsame)⟩
    · exact congrArg FieldType.array (ih.unresolved name h hnone)

/-- **Substituting again changes nothing.** -/
theorem substitute_substitute (t : FieldType) : s.substitute (s.substitute t) = s.substitute t := by
  induction t with
  | base type => rfl
  | object name =>
    cases hfound : s.polyfill? name with
    | none => simp only [substitute, hfound]
    | some polyfill => simp only [substitute, hfound, polyfill?_name hfound]
  | array component ih => exact congrArg FieldType.array ih

/-- So do types in a row. -/
theorem widthOfAll_substitute (types : List FieldType) :
    FieldType.widthOfAll (types.map s.substitute) = FieldType.widthOfAll types := by
  induction types with
  | nil => rfl
  | cons type rest ih =>
    show (s.substitute type).width + FieldType.widthOfAll (rest.map s.substitute) = _
    rw [s.width_substitute, ih]
    rfl

/-- What becomes of a descriptor, type by type. Types come one for one, and the result after
them. -/
theorem substitutedAll_substituteAll (d : MethodDescriptor) :
    SubstitutedAll s d (s.substituteAll d) where
  params := by
    show List.Forall₂ _ d.params (d.params.map s.substitute)
    rw [List.forall₂_map_right_iff, List.forall₂_same]
    exact fun t _ => s.substituted_substitute t
  paramSlots := s.widthOfAll_substitute d.params
  void := by
    unfold substituteAll substituteResult
    cases d.result <;> simp
  result := by
    intro t ht
    refine ⟨s.substitute t, ?_, s.substituted_substitute t⟩
    simp only [substituteAll, ht, substituteResult]

/-- Substituting the classes of a descriptor again changes nothing. A polyfill has no polyfill of
its own. -/
theorem substituteAll_substituteAll (d : MethodDescriptor) :
    s.substituteAll (s.substituteAll d) = s.substituteAll d := by
  have hparams : (d.params.map s.substitute).map s.substitute = d.params.map s.substitute := by
    rw [List.map_map]
    exact List.map_congr_left fun t _ => s.substitute_substitute t
  have hresult : s.substituteResult (s.substituteResult d.result)
      = s.substituteResult d.result := by
    cases d.result with
    | void => rfl
    | value t => exact congrArg ReturnType.value (s.substitute_substitute t)
  unfold substituteAll
  simp only [hparams, hresult]

/-- **Distinct classes have distinct polyfills**, which all lie in the namespace of polyfills and
have none themselves. So substituting the classes of a descriptor keeps its shape, replaces exactly
the classes with polyfills, and does nothing more when it is done again. -/
theorem substituteAll_substituted :
    Function.Injective s.conventions.polyfillName
      ∧ (∀ name, s.conventions.isPolyfill (s.conventions.polyfillName name) = true)
      ∧ (∀ name other polyfill polyfill', s.polyfill? name = some polyfill →
        s.polyfill? other = some polyfill' → polyfill.name = polyfill'.name → name = other)
      ∧ (∀ name polyfill, s.polyfill? name = some polyfill → s.polyfill? polyfill.name = none)
      ∧ ∀ d, SubstitutedAll s d (s.substituteAll d)
        ∧ s.substituteAll (s.substituteAll d) = s.substituteAll d := by
  have hinjective := s.conventions.polyfillName_injective
  refine ⟨hinjective, s.conventions.isPolyfill_polyfillName, ?_, fun _ _ h => polyfill?_name h,
    fun d => ⟨s.substitutedAll_substituteAll d, s.substituteAll_substituteAll d⟩⟩
  intro name other polyfill polyfill' hname hother hsame
  rw [name_of_polyfill? hname, name_of_polyfill? hother] at hsame
  exact hinjective hsame

end Surroundings
end ClassLoom
