import ClassLoom.Proofs.CodePatch.Ranges

/-!
# Line numbers of patched bodies

The source line of an instruction is given by the nearest entry that starts no later, and by the
last one of those that start at one offset; the tables may hold their entries in any order. A
patch moves the start of every entry and keeps the order. As long as no instruction is replaced
by nothing, different offsets stay different, and the same entry is the nearest one afterwards.

* `rel_lineNumbers`: the entries of all tables of a body, before and after;
* `apply_keeps_lines`: the lines of a patched body.
-/

namespace ClassLoom

/-! ## Moved entries

An entry has one offset, which is moved. All tables of a body are moved, each on its own, and count
as one. -/

/-- A line number is read back from its two words. -/
theorem LineNumber.readsBack (e : LineNumber) :
    ReadsBack read (Bytes.word16 e.start ++ Bytes.word16 e.line) e := by
  intro rest
  rw [List.append_assoc]
  unfold read
  rw [Reader.bind_run (Reader.word16_append _ _), Reader.bind_run (Reader.word16_append _ _)]
  rfl

/-- A written table of line numbers is read back. -/
theorem LineNumber.parseTable_tableBytes {entries : List LineNumber} {info : Bytes}
    (h : tableBytes entries = .ok info) : parseTable info = .ok entries := by
  obtain ⟨count, hcount, hend⟩ := bind_eq_ok.1 h
  cases hend
  have hread : List.Forall₂ (ReadsBack read)
      (entries.map fun e => Bytes.word16 e.start ++ Bytes.word16 e.line) entries := by
    rw [List.forall₂_map_left_iff, List.forall₂_same]
    exact fun e _ => e.readsBack
  rw [List.flatMap_def]
  exact (ReadsBack.table hcount hread).all

namespace CodePatch

/-- How a line number is moved: the place where it starts is, and the line stays. -/
structure MovesLine (place : Nat → Except ClassError Nat) (e e' : LineNumber) : Prop where
  start : place e.start.toNat = .ok e'.start.toNat
  line : e'.line = e.line

section Entries

variable {place : Nat → Except ClassError Nat}

/-- **Moving a table of line numbers** moves its entries, one by one and in order. -/
theorem moveLines_eq_ok {info info' : Bytes} (h : moveLines place info = .ok info') :
    ∃ entries entries', LineNumber.parseTable info = .ok entries
      ∧ LineNumber.parseTable info' = .ok entries'
      ∧ List.Forall₂ (MovesLine place) entries entries' := by
  obtain ⟨entries, hentries, h⟩ := bind_eq_ok.1 h
  obtain ⟨entries', hmoved, h⟩ := bind_eq_ok.1 h
  refine ⟨entries, entries', hentries, LineNumber.parseTable_tableBytes h, ?_⟩
  refine (mapM_eq_ok.1 hmoved).imp fun e e' hmove => ?_
  obtain ⟨start, hstart, hend⟩ := bind_eq_ok.1 hmove
  cases hend
  exact ⟨move16_eq_ok hstart, rfl⟩

/-- Of a table of line numbers, the payload is moved. -/
theorem moveLines_of_moveAttribute {a a' : Attribute} (hname : a.name = LineNumber.tableName)
    (h : moveAttribute place a = .ok a') : moveLines place a.info = .ok a'.info := by
  unfold moveAttribute at h
  rw [if_pos hname] at h
  obtain ⟨info, hinfo, hend⟩ := bind_eq_ok.1 h
  cases hend
  exact hinfo

/-- The line numbers of a body are moved table by table. They are in as many tables as before, in
the same order. -/
theorem rel_lineNumbers {code patched : Code}
    (h : (code.attributes.filter fun a => !isDropped a).mapM (moveAttribute place)
      = .ok patched.attributes) :
    List.Forall₂ (MovesLine place) code.lineNumbers patched.lineNumbers := by
  have htables := forall₂_filter_of_moves (fun a => decide (a.name = LineNumber.tableName))
    (fun a a' hname => by rw [hname])
    (fun a ha => by
      unfold isDropped
      rw [of_decide_eq_true ha]
      decide) h
  refine List.rel_flatMap htables fun a a' ⟨hkind, hmove⟩ => ?_
  have hlines := moveLines_of_moveAttribute (of_decide_eq_true hkind) hmove
  obtain ⟨entries, entries', hentries, hentries', hmoves⟩ := moveLines_eq_ok hlines
  rw [hentries, hentries']
  exact hmoves

/-! ## The nearest entry

The line of an instruction is that of the nearest entry in front of it, by offset and not by place
in the table; of two entries for one offset one is chosen by their order. All of that is kept where
moving keeps the order of offsets. -/

/-- Moving that keeps the order keeps which of two entries is the closer one. An entry counts if it
starts at the offset or before, and the later start wins. -/
theorem rel_closer (hmono : ∀ pc pc' offset offset', place pc = .ok offset →
      place pc' = .ok offset' → (offset ≤ offset' ↔ pc ≤ pc'))
    {pc offset : Nat} (hplace : place pc = .ok offset) {best best' : Option LineNumber}
    (hbest : Option.Rel (MovesLine place) best best') {next next' : LineNumber}
    (hnext : MovesLine place next next') :
    Option.Rel (MovesLine place) (LineNumber.closer pc best next)
      (LineNumber.closer offset best' next') := by
  have hreaches := hmono _ _ _ _ hnext.start hplace
  unfold LineNumber.closer
  by_cases hle : next.start.toNat ≤ pc
  · rw [if_pos hle, if_pos (hreaches.2 hle)]
    cases hbest with
    | none => exact .some hnext
    | @some b b' hb =>
      have hcloser : b'.start ≤ next'.start ↔ b.start ≤ next.start :=
        hmono _ _ _ _ hb.start hnext.start
      simp only [hcloser]
      split
      · exact .some hnext
      · exact .some hb
  · rw [if_neg hle, if_neg (mt hreaches.1 hle)]
    exact hbest

/-- The nearest one of the entries so far is moved to the nearest one of the moved entries. -/
theorem rel_nearest (hmono : ∀ pc pc' offset offset', place pc = .ok offset →
      place pc' = .ok offset' → (offset ≤ offset' ↔ pc ≤ pc'))
    {pc offset : Nat} (hplace : place pc = .ok offset) {best best' : Option LineNumber}
    (hbest : Option.Rel (MovesLine place) best best') {entries entries' : List LineNumber}
    (hentries : List.Forall₂ (MovesLine place) entries entries') :
    Option.Rel (MovesLine place) (entries.foldl (LineNumber.closer pc) best)
      (entries'.foldl (LineNumber.closer offset) best') := by
  induction hentries generalizing best best' with
  | nil => exact hbest
  | cons hnext _ ih => exact ih (rel_closer hmono hplace hbest hnext)

end Entries

/-- The nearest entries of lists that are moved keeping the order give the same line. Offsets have
to be ones that have a place. -/
theorem lineAt?_eq {place : Nat → Except ClassError Nat} {code patched : Code}
    (hlines : List.Forall₂ (MovesLine place) code.lineNumbers patched.lineNumbers)
    (hmono : ∀ pc pc' offset offset', place pc = .ok offset →
      place pc' = .ok offset' → (offset ≤ offset' ↔ pc ≤ pc'))
    {pc offset : Nat} (hplace : place pc = .ok offset) :
    patched.lineAt? offset = code.lineAt? pc := by
  have hnearest := rel_nearest hmono hplace .none hlines
  unfold Code.lineAt?
  revert hnearest
  generalize code.lineNumbers.foldl _ none = nearest
  generalize patched.lineNumbers.foldl _ none = nearest'
  rintro (hmoves | _)
  · exact congrArg some hmoves.line
  · rfl

/-! ## Patching

Different old offsets must stay different, or a line could get lost between two that fall
together. -/

/-- Whether a patch replaces no instruction by nothing. -/
def ErasesNone (patch : CodePatch) : Prop := ∀ e ∈ patch.edits.toList, e.2.replacement ≠ some []

instance : DecidablePred ErasesNone := fun patch =>
  inferInstanceAs (Decidable (∀ e ∈ patch.edits.toList, e.2.replacement ≠ some []))

/-- Then every instruction becomes something. Without a replacement that is itself. A replacement by
nothing is what the condition rules out. -/
theorem ErasesNone.successorsAt_ne_nil {patch : CodePatch} (h : patch.ErasesNone) (pc : Nat)
    (i : Instruction) : patch.successorsAt pc i ≠ [] := by
  unfold successorsAt
  rcases patch.editAt_cases pc with hmem | hempty
  · have hne := h _ hmem
    cases hreplacement : (patch.editAt pc).replacement with
    | none => exact List.cons_ne_nil i []
    | some is =>
      rw [hreplacement] at hne
      exact fun hnil => hne (congrArg some hnil)
  · rw [hempty]
    exact List.cons_ne_nil i []

/-- If every instruction becomes something, different offsets stay different. Between them lies what
the lower one became. -/
theorem LaysOut.le_iff_le {patch : CodePatch} {body : List (Nat × Instruction)} {size : Nat}
    {place : Nat → Except ClassError Nat} {bytecode : Bytes} {pieces : List Piece}
    (h : patch.LaysOut body size place bytecode pieces)
    (hordered : (body.map (·.1) ++ [size]).Pairwise (· < ·)) (hpatch : patch.ErasesNone)
    {pc pc' offset offset' : Nat} (hplace : place pc = .ok offset)
    (hplace' : place pc' = .ok offset') : offset ≤ offset' ↔ pc ≤ pc' := by
  refine ⟨fun hle => Nat.not_lt.1 fun hlt => ?_, h.le_of_le hplace hplace'⟩
  -- The lower one of two offsets is not the end of the body.
  have hpc' : pc' ∈ body.map (·.1) := by
    rcases List.mem_append.1 (h.labels pc' offset' hplace') with hmem | hend
    · exact hmem
    · have hbound := (List.pairwise_append.1 hordered).2.2
      rcases List.mem_append.1 (h.labels pc offset hplace) with hmem | hend'
      · exact absurd (hbound pc hmem pc' hend) (Nat.lt_asymm hlt)
      · rw [List.mem_singleton.1 hend, List.mem_singleton.1 hend'] at hlt
        exact absurd hlt (Nat.lt_irrefl _)
  obtain ⟨⟨_, i⟩, he, rfl⟩ := List.mem_map.1 hpc'
  have hlt' := h.lt_of_lt he (hpatch.successorsAt_ne_nil _ i) hplace' hplace hlt
  exact Nat.not_lt.2 hle hlt'

/-- **The lines of a patched body.** If a patch that puts in nothing but what takes up room and
replaces no instruction by nothing succeeds, then every instruction's line is the line of the
first instruction that it became, whatever tables of line numbers the body has. -/
theorem apply_keeps_lines {patch : CodePatch} {code patched : Code} (hpatch : patch.TakesRoom)
    (hkeeps : patch.ErasesNone) (h : patch.apply code = .ok patched) :
    ∃ body place pieces, Instruction.decode code.bytecode = .ok body
      ∧ patch.LaysOut body code.bytecode.length place patched.bytecode pieces
      ∧ ∀ pc i, (pc, i) ∈ body →
        ∃ p, pieces.find? (·.origin = .successor pc) = some p ∧ place pc = .ok p.start
          ∧ patched.lineAt? p.start = code.lineAt? pc := by
  obtain ⟨body, place, pieces, hdecode, hlays, _, hattributes⟩ := exists_laysOut hpatch h
  refine ⟨body, place, pieces, hdecode, hlays, fun pc i hi => ?_⟩
  obtain ⟨p, hp, hplace⟩ := hlays.firsts pc i hi (hkeeps.successorsAt_ne_nil pc i)
  have hordered := Instruction.pairwise_labels_of_decode hdecode
  refine ⟨p, hp, hplace, lineAt?_eq (rel_lineNumbers hattributes) ?_ hplace⟩
  exact fun _ _ _ _ hplace hplace' => hlays.le_iff_le hordered hkeeps hplace hplace'

/-- Two tables out of order, with two entries for one offset. The entry that counts is the same one
in the moved tables. -/
theorem apply_keeps_lines_unsorted :
    let patch := (CodePatch.empty.insertBefore 1 [.op 0x00]).replace 2 [.op 0x00, .op 0xb1]
    let code : Code :=
      { maxStack := 1, maxLocals := 1, bytecode := [0x03, 0x57, 0xb1],
        attributes := [⟨"LineNumberTable", [0, 2, 0, 2, 0, 9, 0, 1, 0, 7]⟩,
          ⟨"LineNumberTable", [0, 2, 0, 0, 0, 5, 0, 1, 0, 8]⟩] }
    let patched : Code :=
      { maxStack := 1, maxLocals := 1, bytecode := [0x03, 0x00, 0x57, 0x00, 0xb1],
        attributes := [⟨"LineNumberTable", [0, 2, 0, 3, 0, 9, 0, 2, 0, 7]⟩,
          ⟨"LineNumberTable", [0, 2, 0, 0, 0, 5, 0, 2, 0, 8]⟩] }
    patch.TakesRoom ∧ patch.ErasesNone ∧ patch.apply code = .ok patched
      ∧ ∃ body place pieces, Instruction.decode code.bytecode = .ok body
        ∧ patch.LaysOut body code.bytecode.length place patched.bytecode pieces
        ∧ ∀ pc i, (pc, i) ∈ body →
          ∃ p, pieces.find? (·.origin = .successor pc) = some p ∧ place pc = .ok p.start
            ∧ patched.lineAt? p.start = code.lineAt? pc :=
  ⟨by decide +kernel, by decide +kernel, by decide +kernel,
    apply_keeps_lines (by decide +kernel) (by decide +kernel) (by decide +kernel)⟩

end CodePatch
end ClassLoom
