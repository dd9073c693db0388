import ClassLoom.Proofs.Descriptor.Printed
import Mathlib.Data.Set.Function

/-!
# Accepted descriptors

A text is accepted as a descriptor exactly where it is the printed form of what is read from it,
with class names that can stand between their marks (`IsNamed`). So nothing is accepted that no
type prints as, and no two types print alike.

* `FieldType.scan_eq_some_iff`, `MethodDescriptor.scanParams_eq_some_iff`: the scans, with what they
  leave;
* `parse_iff_printed`: whole descriptors.
-/

namespace ClassLoom

theorem BaseType.code_of_ofCode? {c : Char} {type : BaseType} (h : ofCode? c = some type) :
    type.code = c := by
  unfold ofCode? at h
  split_ifs at h <;> cases h <;> symm <;> assumption

namespace FieldType

/-- **A type is read from its printed form only**: what a scan takes is what the type prints as.
What is left over is what stands behind it. -/
theorem eq_chars_of_scan {cs rest : List Char} {t : FieldType} (h : scan cs = some (t, rest)) :
    cs = t.chars ++ rest := by
  fun_induction scan cs generalizing t rest with
  | case1 | case2 | case4 => cases h
  | case3 behind name mark tail hsplit =>
    simp only [Option.some.injEq, Prod.mk.injEq] at h
    obtain ⟨rfl, rfl⟩ := h
    -- The name goes on up to the first mark.
    have hname : behind = name ++ ';' :: tail := eq_takeWhile_append_cons hsplit
    rw [hname, chars, String.toList_ofList, List.cons_append, List.append_assoc]
    rfl
  | case5 behind _ ih =>
    obtain ⟨⟨component, tail⟩, hscan, hpair⟩ := Option.map_eq_some_iff.1 h
    cases hpair
    exact congrArg ('[' :: ·) (ih hscan)
  | case6 =>
    obtain ⟨type, hcode, hpair⟩ := Option.map_eq_some_iff.1 h
    cases hpair
    rw [← BaseType.code_of_ofCode? hcode]
    rfl

/-- What a scan accepts: the printed form of a type whose names can stand in a descriptor. -/
theorem scan_eq_some_iff {cs rest : List Char} {t : FieldType} :
    scan cs = some (t, rest) ↔ cs = t.chars ++ rest ∧ t.IsNamed := by
  constructor
  · intro h
    exact ⟨eq_chars_of_scan h, isNamed_of_scan h⟩
  · rintro ⟨rfl, hnamed⟩
    exact scan_chars hnamed rest

/-- What a field descriptor is: the printed form of such a type, and nothing behind it. -/
theorem parse_eq_ok_iff {text : String} {t : FieldType} :
    parse text = .ok t ↔ text = t.text ∧ t.IsNamed := by
  have hscan : scan text.toList = some (t, []) ↔ text = t.text ∧ t.IsNamed := by
    rw [scan_eq_some_iff, List.append_nil, ← String.toList_ofList (l := t.chars), String.toList_inj]
    rfl
  rw [← hscan]
  unfold parse
  split
  · next heq => simp [heq]
  · next hnone =>
    constructor
    · intro h
      cases h
    · intro h
      exact absurd h (hnone t)

end FieldType

namespace MethodDescriptor

/-- **Parameters are read from their printed forms only**, one behind the other, with the bracket
that ends them. No type begins with that bracket, so it is clear where they end. -/
theorem scanParams_eq_some_iff {done params : List FieldType} {cs rest : List Char} :
    scanParams done cs = some (params, rest) ↔ ∃ more, params = done.reverse ++ more
      ∧ (∀ t ∈ more, t.IsNamed) ∧ cs = more.flatMap FieldType.chars ++ ')' :: rest := by
  constructor
  · intro h
    fun_induction scanParams done cs with
    | case1 done tail =>
      cases h
      exact ⟨[], (List.append_nil _).symm, by simp, rfl⟩
    | case2 done cs _ t tail hscan ih =>
      obtain ⟨more, rfl, hnamed, rfl⟩ := ih h
      obtain ⟨rfl, ht⟩ := FieldType.scan_eq_some_iff.1 hscan
      refine ⟨t :: more, by simp, List.forall_mem_cons.2 ⟨ht, hnamed⟩, ?_⟩
      rw [List.flatMap_cons, List.append_assoc]
    | case3 => cases h
  · rintro ⟨more, rfl, hnamed, rfl⟩
    exact scanParams_chars hnamed done rest

/-- What the end of a method descriptor is: the printed form of a result. Its names have to be such
that they can stand in a descriptor. -/
theorem scanResult_eq_some_iff {result : ReturnType} {cs : List Char} :
    scanResult cs = some result
      ↔ cs = result.chars ∧ ∀ t, result = .value t → t.IsNamed := by
  constructor
  · intro h
    -- A single letter for nothing, or a type that takes up the whole text.
    unfold scanResult at h
    split at h
    · cases h
      exact ⟨rfl, fun t ht => by cases ht⟩
    · split at h
      · next t hscan =>
        cases h
        obtain ⟨hchars, hnamed⟩ := FieldType.scan_eq_some_iff.1 hscan
        rw [List.append_nil] at hchars
        refine ⟨hchars, fun t' ht' => ?_⟩
        cases ht'
        exact hnamed
      · cases h
  · rintro ⟨rfl, hnamed⟩
    exact scanResult_chars hnamed

/-- What a method descriptor is, as characters: parameters between brackets and a result. Nothing
may stand behind the result. -/
theorem scan_eq_some_iff {d : MethodDescriptor} {cs : List Char} :
    scan cs = some d ↔ cs = d.chars ∧ d.IsNamed := by
  constructor
  · intro h
    unfold scan at h
    split at h
    · next rest =>
      obtain ⟨⟨params, tail⟩, hparams, h⟩ := Option.bind_eq_some_iff.1 h
      obtain ⟨result, hresult, hend⟩ := Option.bind_eq_some_iff.1 h
      cases hend
      obtain ⟨more, rfl, hnamed, rfl⟩ := scanParams_eq_some_iff.1 hparams
      obtain ⟨rfl, hresultNamed⟩ := scanResult_eq_some_iff.1 hresult
      exact ⟨rfl, hnamed, hresultNamed⟩
    · cases h
  · rintro ⟨rfl, hnamed⟩
    exact scan_chars hnamed

/-- What a method descriptor is, as a text. -/
theorem parse_eq_ok_iff {text : String} {d : MethodDescriptor} :
    parse text = .ok d ↔ text = d.text ∧ d.IsNamed := by
  have hscan : scan text.toList = some d ↔ text = d.text ∧ d.IsNamed := by
    rw [scan_eq_some_iff, ← String.toList_ofList (l := d.chars), String.toList_inj]
    rfl
  rw [← hscan]
  unfold parse
  split
  · next heq => simp [heq]
  · next hnone => simp [hnone]

end MethodDescriptor

/-- Where printed forms are read back, printing is injective. -/
theorem injOn_text_of_parse {α : Type} {parse : String → Except ClassError α} {text : α → String}
    {IsNamed : α → Prop} (hparse : ∀ s a, parse s = .ok a ↔ s = text a ∧ IsNamed a) :
    Set.InjOn text {a | IsNamed a} := by
  intro a ha b hb hsame
  have hreadA := (hparse (text a) a).2 ⟨rfl, ha⟩
  have hreadB := (hparse (text a) b).2 ⟨hsame, hb⟩
  rw [hreadA] at hreadB
  exact Except.ok.inj hreadB

/-- **Reading accepts exactly what printing produces**, and gives back what was printed. So on types
whose names can stand in a descriptor, printing is injective. -/
theorem parse_iff_printed :
    (∀ (text : String) (t : FieldType),
        FieldType.parse text = .ok t ↔ text = t.text ∧ t.IsNamed)
      ∧ (∀ (text : String) (d : MethodDescriptor),
        MethodDescriptor.parse text = .ok d ↔ text = d.text ∧ d.IsNamed)
      ∧ Set.InjOn FieldType.text {t | t.IsNamed}
      ∧ Set.InjOn MethodDescriptor.text {d | d.IsNamed} := by
  have hfield (text : String) (t : FieldType) :
      FieldType.parse text = .ok t ↔ text = t.text ∧ t.IsNamed := FieldType.parse_eq_ok_iff
  have hmethod (text : String) (d : MethodDescriptor) :
      MethodDescriptor.parse text = .ok d ↔ text = d.text ∧ d.IsNamed :=
    MethodDescriptor.parse_eq_ok_iff
  exact ⟨hfield, hmethod, injOn_text_of_parse hfield, injOn_text_of_parse hmethod⟩

/-- Brackets and letters of types can stand in a name. -/
example : MethodDescriptor.parse "([L)(V[;J)V"
    = .ok { params := [.array (.object ")(V["), .base .long], result := .void } := by
  decide +kernel

end ClassLoom
