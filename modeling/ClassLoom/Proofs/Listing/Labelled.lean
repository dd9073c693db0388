import ClassLoom.Proofs.Listing.Relaxed

/-!
# Instructions and labels of a listing

A listing is a list of instructions with a table of labels, which stand for their numbers or for
the end (`Lists`). What relaxing leaves of it is which instructions are widened and where each of
them begins (`Settled`).

* `lists_labelled`: every list of instructions with every table of labels is a listing;
* `settled_of_relax`: what relaxing leaves;
* `relax_settles`: relaxing instructions with a table of labels.
-/

namespace ClassLoom.Listing

variable {listing relaxed : Listing} {pc : Nat}

/-! ## Instructions and labels apart

Listings come about from instructions with a table of labels, where a label stands for the number of
an instruction or for the end. `Lists` says that a listing is made of these, and is kept by
relaxing. -/

/-- Whether a listing consists of some instructions, of which some are widened, with labels that
stand for some of their numbers. -/
structure Lists (listing : Listing) (emitted : List Instruction) (widened : List Bool)
    (labels : Nat → Option Nat) : Prop where
  forms : listing.forms = emitted.zip widened
  index : ∀ pc, index? pc listing = labels pc

/-- Instructions laid out so that the short branches among them reach their targets: where they
begin, and which of them are widened. -/
structure Settled (emitted : List Instruction) (labels : Nat → Option Nat) (widened : List Bool)
    (positions : List Nat) : Prop where
  length_widened : widened.length = emitted.length
  length_positions : positions.length = emitted.length + 1
  start : positions[0]? = some 0
  next : ∀ (k : Nat) (i : Instruction) (wide : Bool) (pos : Nat), emitted[k]? = some i →
    widened[k]? = some wide → positions[k]? = some pos →
    positions[k + 1]? = some (pos + i.size pos wide)
  widenable : ∀ (k : Nat) (i : Instruction), emitted[k]? = some i → widened[k]? = some true →
    i.isShortJump = true
  reaches : ∀ (k : Nat) (op : UInt8) (target pos : Nat),
    emitted[k]? = some (Instruction.branch op target) → widened[k]? = some false →
    Opcode.isWideBranch op = false → positions[k]? = some pos →
    ∃ number offset, labels target = some number ∧ positions[number]? = some offset
      ∧ Instruction.fitsShort ((offset : Int) - (pos : Int)) = true

/-- Labels in front of the instruction of a number, for those of some old offsets that are to stand
there. -/
def labelsAt (labels : Nat → Option Nat) (pcs : List Nat) (k : Nat) : Listing :=
  (pcs.filter fun pc => labels pc = some k).map .label

/-- Instructions from a number on, with all labels for some old offsets. -/
def labelledFrom (labels : Nat → Option Nat) (pcs : List Nat) : Nat → List Instruction → Listing
  | k, [] => labelsAt labels pcs k
  | k, i :: rest => labelsAt labels pcs k ++ .code i false :: labelledFrom labels pcs (k + 1) rest

/-- At first no instruction is widened. -/
theorem map_narrow_eq_zip (emitted : List Instruction) :
    emitted.map (·, false) = emitted.zip (List.replicate emitted.length false) := by
  induction emitted with
  | nil => rfl
  | cons i rest ih => exact congrArg ((i, false) :: ·) ih

section Labelled

variable {labels : Nat → Option Nat} {pcs : List Nat}

/-- Labels are no instructions. -/
theorem forms_labelsAt_append (k : Nat) (back : Listing) :
    forms (labelsAt labels pcs k ++ back) = back.forms := by
  unfold labelsAt
  induction pcs.filter fun pc => labels pc = some k with
  | nil => rfl
  | cons pc pcs ih => exact ih

/-- Labels in front of lines have the number of the first instruction, unless they come again behind
it. -/
theorem index?_labels_append (pcs : List Nat) (back : Listing) :
    index? pc (pcs.map .label ++ back)
      = (index? pc back).or (if pc ∈ pcs then some 0 else none) := by
  induction pcs with
  | nil => simp
  | cons pc' pcs ih =>
    show (index? pc (pcs.map .label ++ back)).or (if pc' = pc then some 0 else none) = _
    rw [ih, Option.or_assoc]
    by_cases hmem : pc ∈ pcs
    · simp [hmem]
    · simp [hmem, eq_comm]

/-- The labels in front of an instruction are those that the table has for its number. -/
theorem index?_labelsAt_append (hpcs : ∀ n, labels pc = some n → pc ∈ pcs) (k : Nat)
    (back : Listing) : index? pc (labelsAt labels pcs k ++ back)
      = (index? pc back).or (if labels pc = some k then some 0 else none) := by
  have hmem : pc ∈ pcs.filter (fun pc => labels pc = some k) ↔ labels pc = some k := by
    rw [List.mem_filter, decide_eq_true_eq]
    exact ⟨fun h => h.2, fun h => ⟨hpcs k h, h⟩⟩
  unfold labelsAt
  rw [index?_labels_append]
  simp only [hmem]

/-- The instructions of a labelled listing are those that it was made for. -/
theorem forms_labelledFrom (k : Nat) (emitted : List Instruction) :
    forms (labelledFrom labels pcs k emitted) = emitted.map (·, false) := by
  induction emitted generalizing k with
  | nil =>
    have h : forms (labelsAt labels pcs k ++ []) = [] := forms_labelsAt_append k []
    rwa [List.append_nil] at h
  | cons i rest ih =>
    show forms (labelsAt labels pcs k ++ _) = _
    rw [forms_labelsAt_append, forms_code, ih]
    rfl

/-- A label of the table has the number that the table says, counted from where the instructions
begin. -/
theorem index?_labelledFrom (hpcs : ∀ n, labels pc = some n → pc ∈ pcs) (k : Nat)
    (emitted : List Instruction) : index? pc (labelledFrom labels pcs k emitted)
      = (labels pc).bind fun n =>
        if k ≤ n ∧ n ≤ k + emitted.length then some (n - k) else none := by
  induction emitted generalizing k with
  | nil =>
    have h := index?_labelsAt_append hpcs k []
    rw [List.append_nil] at h
    refine h.trans ?_
    cases labels pc with
    | none => rfl
    | some n =>
      simp only [Option.bind_some, Option.some.injEq, List.length_nil, Nat.add_zero]
      by_cases hn : n = k
      · rw [if_pos hn, if_pos (by omega), Nat.sub_eq_zero_of_le (Nat.le_of_eq hn)]
        rfl
      · rw [if_neg hn, if_neg (by omega)]
        rfl
  | cons i rest ih =>
    show index? pc (labelsAt labels pcs k ++ .code i false :: labelledFrom labels pcs (k + 1) rest)
      = _
    rw [index?_labelsAt_append hpcs, index?, ih]
    cases labels pc with
    | none => rfl
    | some n =>
      simp only [Option.bind_some, Option.some.injEq, List.length_cons]
      -- The label stands in front of these instructions, at the first one, or behind it.
      rcases Nat.lt_trichotomy n k with hlt | rfl | hgt
      · rw [if_neg (by omega), if_neg (by omega), if_neg (by omega)]
        rfl
      · rw [if_neg (by omega), if_pos rfl, if_pos (by omega), Nat.sub_self]
        rfl
      · by_cases hin : n ≤ k + 1 + rest.length
        · rw [if_pos (by omega), if_neg (by omega), if_pos (by omega)]
          have hnumber : n - (k + 1) + 1 = n - k := by omega
          exact congrArg some hnumber
        · rw [if_neg (by omega), if_neg (by omega), if_neg (by omega)]
          rfl

end Labelled

/-- The numbers that labels stand for, the one of the end among them. -/
def numbers {count : Nat} (labels : Std.TreeMap Nat (Fin (count + 1))) (pc : Nat) : Option Nat :=
  labels[pc]?.map (·.val)

/-- Instructions with all labels for their numbers. -/
def labelled (emitted : List Instruction) (labels : Std.TreeMap Nat (Fin (emitted.length + 1))) :
    Listing :=
  labelledFrom (numbers labels) labels.keys 0 emitted

/-- **A listing that is made for a table of labels consists of the instructions with these
labels.** -/
theorem lists_labelled (emitted : List Instruction)
    (labels : Std.TreeMap Nat (Fin (emitted.length + 1))) :
    Lists (labelled emitted labels) emitted (List.replicate emitted.length false)
      (numbers labels) := by
  unfold labelled
  refine ⟨?_, fun pc => ?_⟩
  · rw [forms_labelledFrom, map_narrow_eq_zip]
  · have hkeys : ∀ n, numbers labels pc = some n → pc ∈ labels.keys := by
      intro n hn
      obtain ⟨number, hnumber, -⟩ := Option.map_eq_some_iff.1 hn
      rw [Std.TreeMap.mem_keys, Std.TreeMap.mem_iff_isSome_getElem?, hnumber]
      rfl
    rw [index?_labelledFrom hkeys]
    unfold numbers
    cases labels[pc]? with
    | none => rfl
    | some number =>
      have hle : number.val ≤ emitted.length := by omega
      simp [hle]

/-! ## What relaxing comes to

Relaxing ends with instructions laid out in a row (`Settled`), in which every short branch reaches
its target. The offsets are told by the sizes, and the sizes by the offsets through the padding of
switches; both are consistent in the end. -/

section Settled

variable {emitted : List Instruction} {widened : List Bool} {labels : Nat → Option Nat}

/-- An instruction of a listing is one of its lines. -/
theorem mem_forms {i : Instruction} {wide : Bool} :
    (i, wide) ∈ listing.forms ↔ Line.code i wide ∈ listing := by
  unfold forms
  rw [List.mem_filterMap]
  constructor
  · rintro ⟨line, hmem, hline⟩
    cases line with
    | label pc => cases hline
    | code j wide' =>
      cases hline
      exact hmem
  · exact fun hmem => ⟨_, hmem, rfl⟩

/-- Only short jumps are widened. -/
theorem Widened.isShortJump (h : Widened listing relaxed) {i : Instruction}
    (hmem : (i, true) ∈ relaxed.forms) : (i, true) ∈ listing.forms ∨ i.isShortJump = true := by
  obtain ⟨line, hline, hwidened⟩ := exists_of_mem_right h (mem_forms.1 hmem)
  cases hwidened with
  | same => exact .inl (mem_forms.2 hline)
  | wide op target hop => exact .inr hop

/-- Widening moves no label to another instruction. -/
theorem Widened.index? (h : Widened listing relaxed) :
    Listing.index? pc relaxed = Listing.index? pc listing := by
  induction h with
  | nil => rfl
  | @cons line _ _ _ hline _ ih =>
    cases hline with
    | same => cases line <;> simp only [Listing.index?, ih]
    | wide op target hop => simp only [Listing.index?, ih]

/-- Widening keeps the instructions in a row. -/
theorem Lists.of_widened (h : Lists listing emitted widened labels)
    (hrelaxed : Widened listing relaxed) (hlength : widened.length = emitted.length) :
    Lists relaxed emitted (relaxed.forms.map (·.2)) labels
      ∧ (relaxed.forms.map (·.2)).length = emitted.length := by
  have hemitted : relaxed.forms.map (·.1) = emitted := by
    rw [← instructions_eq_map_forms, hrelaxed.instructions, instructions_eq_map_forms, h.forms,
      List.map_fst_zip (by omega)]
  refine ⟨⟨?_, fun pc => hrelaxed.index?.trans (h.index pc)⟩, ?_⟩
  · exact List.zip_of_prod hemitted rfl
  · rw [← hemitted, List.length_map, List.length_map]

/-- What has a place is a label, and lies where its instruction begins. -/
theorem exists_index?_of_place {offset : Nat} (h : listing.layout.place pc = .ok offset) :
    ∃ number, Listing.index? pc listing = some number
      ∧ listing.positions[number]? = some offset := by
  cases hindex : Listing.index? pc listing with
  | none =>
    rw [place_of_notMem_labels (index?_eq_none_iff.1 hindex)] at h
    cases h
  | some number =>
    obtain ⟨offset', hpos, hplace⟩ := exists_place_of_index? hindex
    obtain rfl := Except.ok.inj (h.symm.trans hplace)
    exact ⟨number, rfl, hpos⟩

/-- **What has been relaxed is laid out** so that all short branches reach their targets. The last
round has looked at every branch and changed none. -/
theorem settled_of_relax
    (h : Lists listing emitted (List.replicate emitted.length false) labels)
    (hrelax : listing.relax = .ok relaxed) :
    Settled emitted labels (relaxed.forms.map (·.2)) relaxed.positions
      ∧ Lists relaxed emitted (relaxed.forms.map (·.2)) labels := by
  -- Relaxing only widens short jumps, so instructions and labels are those of the old listing.
  have hwidened := widened_of_relax hrelax
  obtain ⟨hlists, hlength⟩ := h.of_widened hwidened List.length_replicate
  have hform {k : Nat} {i : Instruction} {wide : Bool} (hi : emitted[k]? = some i)
      (hwide : (relaxed.forms.map (·.2))[k]? = some wide) :
      relaxed.forms[k]? = some (i, wide) := by
    rw [hlists.forms, List.getElem?_zip_eq_some]
    exact ⟨hi, hwide⟩
  refine ⟨⟨hlength, ?_, getElem?_zero_positionsFrom 0 relaxed, ?_, ?_, ?_⟩, hlists⟩
  · rw [positions, length_positionsFrom, ← hlength, List.length_map]
  · exact fun k i wide pos hi hwide hpos => getElem?_succ_positions (hform hi hwide) hpos
  · intro k i hi hwide
    rcases hwidened.isShortJump (List.mem_of_getElem? (hform hi hwide)) with hmem | hjump
    · rw [h.forms, ← map_narrow_eq_zip] at hmem
      simp at hmem
    · exact hjump
  · intro k op target pos hi hwide hop hpos
    -- A branch that has stayed short was reached by the last round, which widened nothing.
    obtain ⟨front, back, rfl, rfl⟩ := exists_split_of_forms (hform hi hwide)
    obtain rfl := Option.some.inj ((getElem?_positionsFrom 0 front _).symm.trans hpos)
    obtain ⟨offset, hplace, hfits⟩ := reaches_of_widen (widen_of_relax hrelax) hop
    obtain ⟨number, hnumber, hoffset⟩ := exists_index?_of_place hplace
    exact ⟨number, offset, (hlists.index target).symm.trans hnumber, hoffset, hfits⟩

end Settled

/-- **Relaxing instructions with a table of labels** comes to an end after one more round than
there are short jumps, at the latest. Where it succeeds, every short branch reaches its target,
so that the code can be written unless it is too long or a target of a switch has no place; and
each instruction stands in the code where it has been laid out. -/
theorem relax_settles (emitted : List Instruction)
    (labels : Std.TreeMap Nat (Fin (emitted.length + 1))) :
    (∃ listing, Lists listing emitted (List.replicate emitted.length false) (numbers labels))
      ∧ ∀ listing, Lists listing emitted (List.replicate emitted.length false) (numbers labels) →
        (∃ rounds ≤ emitted.countP Instruction.isShortJump + 1,
          Rounds rounds listing listing.relax)
        ∧ ∀ relaxed, listing.relax = .ok relaxed → ∃ widened positions,
          Settled emitted (numbers labels) widened positions
          ∧ Lists relaxed emitted widened (numbers labels)
          ∧ (∀ pc number, numbers labels pc = some number → ∃ offset,
            positions[number]? = some offset ∧ relaxed.layout.place pc = .ok offset)
          ∧ (∀ pc, numbers labels pc = none →
            relaxed.layout.place pc = .error (.badCodeOffset pc))
          ∧ (∀ pc, relaxed.bytes ≠ .error (.branchOverflow pc))
          ∧ ∀ code, relaxed.bytes = .ok code → ∀ (k : Nat) (i : Instruction) (wide : Bool)
            (pos : Nat), emitted[k]? = some i → widened[k]? = some wide →
            positions[k]? = some pos → ∃ before written behind,
              code = before ++ written ++ behind ∧ before.length = pos
                ∧ i.bytes relaxed.layout.place pos wide = .ok written := by
  refine ⟨⟨_, lists_labelled emitted labels⟩, fun listing hlists => ⟨?_, fun relaxed hrelax => ?_⟩⟩
  · obtain ⟨rounds, hle, hrounds⟩ := rounds_relax listing
    refine ⟨rounds, ?_, hrounds⟩
    -- A listing counts its short jumps, and all of those that were emitted are still short.
    have hcount : listing.shortJumps = emitted.countP Instruction.isShortJump := by
      unfold shortJumps
      rw [hlists.forms, ← map_narrow_eq_zip, List.countP_map]
      simp [Function.comp_def]
    rwa [← hcount]
  · obtain ⟨hsettled, hlists'⟩ := settled_of_relax hlists hrelax
    refine ⟨_, _, hsettled, hlists', ?_, ?_, ?_, ?_⟩
    · exact fun pc number hnumber => exists_place_of_index? ((hlists'.index pc).trans hnumber)
    · exact fun pc hnone =>
        place_of_notMem_labels (index?_eq_none_iff.1 ((hlists'.index pc).trans hnone))
    · exact fun pc => bytes_ne_branchOverflow (widen_of_relax hrelax)
    · intro code hcode k i wide pos hi hwide hpos
      refine written_at_of_bytes hcode ?_ hpos
      rw [hlists'.forms, List.getElem?_zip_eq_some]
      exact ⟨hi, hwide⟩

/-- A `goto` over switches that are too long for it together. -/
def overSwitches : List Instruction :=
  .branch Opcode.goto 9 :: List.replicate 8 (.lookupSwitch 9 (List.replicate 512 (0, 9)))

/-- A label for the end. -/
def atEnd : Std.TreeMap Nat (Fin (overSwitches.length + 1)) :=
  (∅ : Std.TreeMap Nat _).insert 9 (Fin.last _)

/-- The `goto` is widened, although the padding of the first switch changes with it. The round after
that finds nothing more to widen. -/
theorem relax_settles_overSwitches : ∃ relaxed code widened positions,
    Lists (labelled overSwitches atEnd) overSwitches (List.replicate overSwitches.length false)
      (numbers atEnd)
    ∧ relax (labelled overSwitches atEnd) = .ok relaxed
    ∧ Settled overSwitches (numbers atEnd) widened positions ∧ widened[0]? = some true
    ∧ (∃ offset, positions[9]? = some offset ∧ relaxed.layout.place 9 = .ok offset)
    ∧ relaxed.layout.place 0 = .error (.badCodeOffset 0) ∧ relaxed.bytes = .ok code
    ∧ ∃ written behind, code = written ++ behind
      ∧ (Instruction.branch Opcode.goto 9).bytes relaxed.layout.place 0 true = .ok written := by
  have hevaluated : (do
      let relaxed ← (relax (labelled overSwitches atEnd)).toOption
      let _code ← relaxed.bytes.toOption
      return relaxed.forms[0]?.map (·.2)) = some (some true) := by
    decide +kernel
  simp only [toOption_bind_eq_some] at hevaluated
  obtain ⟨relaxed, hrelax, code, hcode, hfirst⟩ := hevaluated
  have hlists := lists_labelled overSwitches atEnd
  obtain ⟨widened, positions, hsettled, hlists', hplace, hmissing, -, hwritten⟩ :=
    ((relax_settles overSwitches atEnd).2 _ hlists).2 _ hrelax
  -- The only jump is in the first place, and it has been widened.
  have hwide : widened[0]? = some true := by
    obtain ⟨form, hform, hwide⟩ := Option.map_eq_some_iff.1 (Option.some.inj hfirst)
    rw [hlists'.forms, List.getElem?_zip_eq_some, hwide] at hform
    exact hform.2
  obtain ⟨before, written, behind, hsplit, hbefore, hbytes⟩ :=
    hwritten code hcode 0 _ true 0 rfl hwide hsettled.start
  rw [List.eq_nil_of_length_eq_zero hbefore, List.nil_append] at hsplit
  exact ⟨relaxed, code, widened, positions, hlists, hrelax, hsettled, hwide,
    hplace 9 9 (by decide +kernel), hmissing 0 (by decide +kernel), hcode, written, behind, hsplit,
    hbytes⟩

end ClassLoom.Listing
