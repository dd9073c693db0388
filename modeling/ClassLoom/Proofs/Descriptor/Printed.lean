import ClassLoom.Descriptor.Parser
import Mathlib.Data.List.TakeWhile

/-!
# Printed descriptors

What prints as a descriptor is read back from it, as long as the class names in it can stand
between their marks (`IsNamed`). The names in what was read can.

* `FieldType.scan_chars`, `MethodDescriptor.parse_text`: printed forms are read back;
* `MethodDescriptor.isNamed_of_parse`: parameters that were read can be printed.
-/

namespace ClassLoom

/-- A text in which a mark was found is what stands in front of the first one, the mark and what is
behind it. -/
theorem eq_takeWhile_append_cons {mark c : Char} {cs tail : List Char}
    (h : cs.dropWhile (· ≠ mark) = c :: tail) : cs = cs.takeWhile (· ≠ mark) ++ mark :: tail := by
  have hmark := List.head?_dropWhile_not (fun c : Char => decide (c ≠ mark)) cs
  rw [h] at hmark
  have hcs := List.takeWhile_append_dropWhile (p := fun c : Char => decide (c ≠ mark)) (l := cs)
  rw [h] at hcs
  obtain rfl : c = mark := by simpa using hmark
  exact hcs.symm

namespace FieldType

/-- Whether the class named in a type, if there is one, has a name that can stand in a
descriptor. -/
def IsNamed : FieldType → Prop
  | base _ => True
  | object name => name ≠ "" ∧ ';' ∉ name.toList
  | array component => component.IsNamed

/-- No primitive type is written like a class or an array, or like the end of a parameter list. -/
theorem code_ne (type : BaseType) : type.code ≠ 'L' ∧ type.code ≠ '[' ∧ type.code ≠ ')' := by
  cases type <;> decide

/-- A name ends where the mark behind it stands. The name itself must not have the mark in it. -/
theorem takeWhile_name {name : List Char} (h : ';' ∉ name) (rest : List Char) :
    (name ++ ';' :: rest).takeWhile (· ≠ ';') = name
      ∧ (name ++ ';' :: rest).dropWhile (· ≠ ';') = ';' :: rest := by
  induction name with
  | nil => exact ⟨rfl, rfl⟩
  | cons c name ih =>
    rw [List.mem_cons, not_or] at h
    obtain ⟨hc, hname⟩ := h
    obtain ⟨htake, hdrop⟩ := ih hname
    have hne : decide (c ≠ ';') = true := decide_eq_true (Ne.symm hc)
    rw [List.cons_append, List.takeWhile_cons, List.dropWhile_cons, if_pos hne, if_pos hne, htake,
      hdrop]
    exact ⟨rfl, rfl⟩

/-- **A printed type is read back**, whatever stands behind it. The scan takes a name up to its
first semicolon, which is the one that was printed. -/
theorem scan_chars {t : FieldType} (h : t.IsNamed) (rest : List Char) :
    scan (t.chars ++ rest) = some (t, rest) := by
  induction t with
  | base type =>
    obtain ⟨hobject, harray, _⟩ := code_ne type
    show scan (type.code :: rest) = _
    unfold scan
    rw [if_neg hobject, if_neg harray, BaseType.ofCode?_code]
    rfl
  | object name =>
    obtain ⟨hne, hmark⟩ := h
    -- The name has no semicolon, so the first one in the text is its end.
    obtain ⟨htake, hdrop⟩ := takeWhile_name hmark rest
    have hempty : name.toList.isEmpty = false := by
      rw [List.isEmpty_eq_false_iff]
      intro hnil
      exact hne (String.toList_inj.1 hnil)
    show scan ('L' :: (name.toList ++ [';'] ++ rest)) = _
    rw [List.append_assoc, List.singleton_append]
    unfold scan
    rw [if_pos rfl]
    simp only [htake, hdrop, hempty]
    rw [if_neg (by simp), String.ofList_toList]
  | array component ih =>
    show scan ('[' :: (component.chars ++ rest)) = _
    unfold scan
    rw [if_neg (by decide), if_pos rfl, ih h]
    rfl

/-- **A type that was read has a name that can stand in a descriptor**, if it has one. It was read
up to the first semicolon, and an empty name is refused. -/
theorem isNamed_of_scan {cs rest : List Char} {t : FieldType} (h : scan cs = some (t, rest)) :
    t.IsNamed := by
  fun_induction scan cs generalizing t rest with
  | case1 | case2 | case4 => cases h
  | case3 =>
    -- A class: its name is what stands in front of the first semicolon, and is not empty.
    rename_i hempty
    simp only [Option.some.injEq, Prod.mk.injEq] at h
    obtain ⟨rfl, _⟩ := h
    constructor
    · intro hnil
      refine hempty ?_
      rw [← String.toList_inj, String.toList_ofList] at hnil
      rw [hnil]
      rfl
    · rw [String.toList_ofList]
      intro hmark
      simpa using List.mem_takeWhile_imp hmark
  | case5 _ _ ih =>
    obtain ⟨⟨component, tail⟩, hscan, hpair⟩ := Option.map_eq_some_iff.1 h
    cases hpair
    show component.IsNamed
    exact ih hscan
  | case6 =>
    obtain ⟨type, _, hpair⟩ := Option.map_eq_some_iff.1 h
    cases hpair
    trivial

/-- No printed type starts like the end of a parameter list. -/
theorem chars_ne_close (t : FieldType) : ∃ c cs, t.chars = c :: cs ∧ c ≠ ')' := by
  cases t with
  | base type => exact ⟨_, _, rfl, (code_ne type).2.2⟩
  | object name => exact ⟨_, _, rfl, by decide⟩
  | array component => exact ⟨_, _, rfl, by decide⟩

end FieldType

namespace MethodDescriptor

/-- Whether all classes in a descriptor have names that can stand in one. -/
def IsNamed (d : MethodDescriptor) : Prop :=
  (∀ t ∈ d.params, t.IsNamed) ∧ ∀ t, d.result = .value t → t.IsNamed

/-- Printed parameters are read back one by one, up to the bracket. They come behind those that have
been read before. -/
theorem scanParams_chars {params : List FieldType} (h : ∀ t ∈ params, t.IsNamed)
    (done : List FieldType) (rest : List Char) :
    scanParams done (params.flatMap FieldType.chars ++ ')' :: rest)
      = some (done.reverse ++ params, rest) := by
  induction params generalizing done with
  | nil =>
    unfold scanParams
    simp
  | cons t params ih =>
    obtain ⟨c, cs, hchars, hc⟩ := t.chars_ne_close
    have hscan := FieldType.scan_chars (h t (List.mem_cons_self ..))
      (params.flatMap FieldType.chars ++ ')' :: rest)
    have hrest := ih (fun t ht => h t (List.mem_cons_of_mem _ ht)) (t :: done)
    rw [List.flatMap_cons, List.append_assoc]
    -- A type does not start with the bracket that ends the parameters.
    rw [hchars, List.cons_append] at hscan ⊢
    unfold scanParams
    split
    · next heq =>
      rw [List.cons.injEq] at heq
      exact absurd heq.1 hc
    · split
      · next t' rest' hfound =>
        rw [hscan] at hfound
        cases hfound
        rw [hrest]
        simp
      · next hfound =>
        rw [hscan] at hfound
        cases hfound

/-- Parameters that were read have names that can stand in a descriptor. -/
theorem isNamed_of_scanParams {done params : List FieldType} {cs rest : List Char}
    (h : scanParams done cs = some (params, rest)) (hdone : ∀ t ∈ done, t.IsNamed) :
    ∀ t ∈ params, t.IsNamed := by
  fun_induction scanParams done cs with
  | case1 =>
    cases h
    simpa using hdone
  | case2 done cs _ t tail hscan ih =>
    exact ih h (List.forall_mem_cons.2 ⟨FieldType.isNamed_of_scan hscan, hdone⟩)
  | case3 => cases h

/-- So have those of a method descriptor that was read. -/
theorem isNamed_of_parse {text : String} {d : MethodDescriptor} (h : parse text = .ok d) :
    ∀ t ∈ d.params, t.IsNamed := by
  unfold parse at h
  split at h
  · next hscan =>
    cases h
    unfold scan at hscan
    split at hscan
    · obtain ⟨⟨params, tail⟩, hparams, hscan⟩ := Option.bind_eq_some_iff.1 hscan
      obtain ⟨result, _, hend⟩ := Option.bind_eq_some_iff.1 hscan
      cases hend
      exact isNamed_of_scanParams hparams (by simp)
    · cases hscan
  · cases h

/-- A printed result is read back. A result that is a type starts with another letter than the one
for nothing. -/
theorem scanResult_chars {result : ReturnType} (h : ∀ t, result = .value t → t.IsNamed) :
    scanResult result.chars = some result := by
  cases result with
  | void => rfl
  | value t =>
    have hscan := FieldType.scan_chars (h t rfl) []
    rw [List.append_nil] at hscan
    show scanResult t.chars = _
    unfold scanResult
    split
    · next heq =>
      rw [heq] at hscan
      cases hscan
    · rw [hscan]

/-- A printed descriptor is read back as characters. -/
theorem scan_chars {d : MethodDescriptor} (h : d.IsNamed) : scan d.chars = some d := by
  show ((scanParams [] (d.params.flatMap FieldType.chars ++ ')' :: d.result.chars)).bind
    fun r => (scanResult r.2).bind fun result => some { params := r.1, result }) = some d
  rw [scanParams_chars h.1]
  simp only [Option.bind_some, scanResult_chars h.2]
  rfl

/-- **A printed method descriptor is read back.** -/
theorem parse_text {d : MethodDescriptor} (h : d.IsNamed) : parse d.text = .ok d := by
  unfold parse text
  rw [String.toList_ofList, scan_chars h]

end MethodDescriptor
end ClassLoom
