import ClassLoom.Proofs.Instruction.Decoded

/-!
# Decoded code, assembled again

Decoding forgets nothing of a code array but what stands in the padding of its switches. So the
instructions that it gives can be assembled again, each at the offset where it was found, and the
result is the array with zeros for padding.

* `bytes_of_read`: the written form of an instruction that was read;
* `drop_of_read`: reading takes as many bytes as writing gives;
* `Cleared`, `cleared_of_decodeOnto`: what a whole row of instructions becomes;
* `assemble_of_decode`: what assembling gives, byte by byte.
-/

namespace ClassLoom.Instruction

/-! ## What is read is what is written

This is the reverse of what the written forms were looked at for: here the bytes come first. A
distance leads to one target, and the target to that distance. -/

/-- A distance leads to the offset that many bytes away, if that lies inside the code. Distances go
backwards, too. -/
theorem targetAt_eq_ok {size pc target : Nat} {d : Int} :
    targetAt size pc d = .ok target ↔ (target : Int) = pc + d ∧ target < size := by
  unfold targetAt
  simp only
  split
  · next houtside =>
    rw [Bool.or_eq_true, decide_eq_true_eq, decide_eq_true_eq] at houtside
    constructor
    · intro h
      cases h
    · rintro ⟨htarget, hlt⟩
      omega
  · next hinside =>
    rw [Bool.or_eq_true, decide_eq_true_eq, decide_eq_true_eq] at hinside
    rw [Except.ok.injEq]
    omega

section Exact

variable {size pc : Nat} (hpc : pc < 2147483648) (hsize : size ≤ 2147483648)
include hpc hsize

/-- The distance to a target is the one that led to it. -/
theorem toInt_distance_of_targetAt {target : Nat} {d : Int} (h : targetAt size pc d = .ok target) :
    (distance pc target).toInt = d := by
  obtain ⟨htarget, hlt⟩ := targetAt_eq_ok.1 h
  rw [toInt_distance hpc (by omega), htarget]
  omega

/-- A target that is read from a word is written as that word. -/
theorem eq_of_readTarget (bs : Bytes) (target : Nat) (rest : Bytes)
    (h : readTarget size pc bs = .ok (target, rest)) :
    bs = int32Bytes (distance pc target) ++ rest := by
  obtain ⟨d, mid, hword, h⟩ := Reader.bind_eq_ok.1 h
  obtain ⟨htarget, rfl⟩ := Reader.lift_eq_ok.1 h
  have hd : distance pc target = d.toInt32 :=
    Int32.toInt.inj (toInt_distance_of_targetAt hpc hsize htarget)
  rw [Reader.word32_eq_ok.1 hword, hd, int32Bytes_toInt32]

/-- A case is a key with a target. -/
theorem eq_of_readCase (bs : Bytes) (c : Int32 × Nat) (rest : Bytes)
    (h : readCase size pc bs = .ok (c, rest)) :
    bs = int32Bytes c.1 ++ int32Bytes (distance pc c.2) ++ rest := by
  obtain ⟨key, mid, hkey, h⟩ := Reader.bind_eq_ok.1 h
  obtain ⟨target, mid', htarget, h⟩ := Reader.bind_eq_ok.1 h
  cases h
  rw [Reader.word32_eq_ok.1 hkey, eq_of_readTarget hpc hsize _ _ _ htarget, int32Bytes_toInt32,
    List.append_assoc]

end Exact

/-! ## Single instructions

Of an instruction that is read, all bytes are in the instruction but the padding of switches. So
writing it gives the same bytes with zeros for the padding. -/

/-- How many bytes behind its opcode an instruction at `pc` skips. -/
def gap (pc : Nat) : Instruction → Nat
  | tableSwitch .. => padding pc
  | lookupSwitch .. => padding pc
  | _ => 0

/-- Whether the written form of an instruction at `pc` is an opcode, zeros for what is skipped, and
the given operands. -/
def WrittenAs (pc : Nat) (i : Instruction) (op : UInt8) (operands : Bytes) : Prop :=
  i.bytes (fun target => .ok target) pc false
    = .ok (op :: (List.replicate (i.gap pc) 0 ++ operands))

section Read

variable {size pc : Nat} {op : UInt8} {i : Instruction} {bs rest : Bytes}

/-- A short branch that reaches is its opcode with the distance in two bytes. -/
theorem writtenAs_shortBranch {target : Nat} (hnarrow : Opcode.isWideBranch op = false)
    (hfits : fitsShort (distance pc target).toInt = true) :
    WrittenAs pc (branch op target) op (Bytes.word16 (distance pc target).toInt16.toUInt16) := by
  unfold WrittenAs
  rw [bytes_branch_same, hnarrow, hfits]
  rfl

/-- A wide branch is its opcode with the distance in four. -/
theorem writtenAs_wideBranch {target : Nat} (hwide : Opcode.isWideBranch op = true) :
    WrittenAs pc (branch op target) op (int32Bytes (distance pc target)) := by
  unfold WrittenAs
  rw [bytes_branch_same, hwide]
  rfl

variable (hpc : pc < 2147483648) (hsize : size ≤ 2147483648)
include hpc hsize

/-- A table switch is written as it was read, behind its padding. Its upper bound is not kept, but
told by the number of its targets. -/
theorem writtenAs_of_readTableSwitch (h : readTableSwitch size pc bs = .ok (i, rest)) :
    ∃ operands, bs = operands ++ rest ∧ i.gap pc = padding pc
      ∧ WrittenAs pc i Opcode.tableSwitch operands := by
  obtain ⟨default, low, high, targets, mid, behind, rfl, hdefault, rfl, htargets, hpos, hlast⟩ :=
    readTableSwitch_eq_ok h
  have hbelow := high.toInt32.toInt_lt
  -- The last index is written as the first one and the number of targets add up to.
  have hsame : low.toInt32 + Int32.ofNat targets.length - 1 = high.toInt32 := by
    apply Int32.toInt.inj
    rw [toInt_lastIndex hpos (by omega)]
    omega
  refine ⟨int32Bytes (distance pc default) ++ Bytes.word32 low ++ Bytes.word32 high
    ++ targets.flatMap fun t => int32Bytes (distance pc t), ?_, rfl, ?_⟩
  · rw [eq_of_readTarget hpc hsize _ _ _ hdefault,
      Reader.eq_flatMap_of_times (eq_of_readTarget hpc hsize) htargets]
    simp only [List.append_assoc]
  · unfold WrittenAs
    refine (bytes_tableSwitch (f := id) fun _ _ => rfl).trans ?_
    rw [hsame]
    simp only [id, List.map_id, int32Bytes_toInt32, List.append_assoc, gap]

/-- A lookup switch is written as it was read, behind its padding. The number of its cases is read
as a signed one, and is written again from the cases. -/
theorem writtenAs_of_readLookupSwitch (h : readLookupSwitch size pc bs = .ok (i, rest)) :
    ∃ operands, bs = operands ++ rest ∧ i.gap pc = padding pc
      ∧ WrittenAs pc i Opcode.lookupSwitch operands := by
  obtain ⟨default, count, cases, mid, behind, rfl, hdefault, rfl, hcases, hcount⟩ :=
    readLookupSwitch_eq_ok h
  have hbelow := count.toInt32.toInt_lt
  have hsame : Int32.ofNat cases.length = count.toInt32 := by
    apply Int32.toInt.inj
    rw [Int32.toInt_ofNat_of_lt (by omega), hcount]
  refine ⟨int32Bytes (distance pc default) ++ Bytes.word32 count
    ++ cases.flatMap fun c => int32Bytes c.1 ++ int32Bytes (distance pc c.2), ?_, rfl, ?_⟩
  · rw [eq_of_readTarget hpc hsize _ _ _ hdefault,
      Reader.eq_flatMap_of_times (eq_of_readCase hpc hsize) hcases]
    simp only [List.append_assoc]
  · unfold WrittenAs
    refine (bytes_lookupSwitch (f := id) fun _ _ => rfl).trans ?_
    rw [hsame]
    simp only [id, List.map_id', int32Bytes_toInt32, List.append_assoc, gap]

/-- **An instruction that was read is written as it was**, but for what it skips. The cases are the
ways in which instructions are read. -/
theorem bytes_of_read (h : read size pc op bs = .ok (i, rest)) :
    ∃ skipped operands, bs = skipped ++ operands ++ rest ∧ skipped.length = i.gap pc
      ∧ WrittenAs pc i op operands := by
  cases reads_of_read h with
  | @shortBranch d target rest hop htarget =>
    have hd := toInt_distance_of_targetAt hpc hsize htarget
    -- The distance was read from 16 bits, so it fits them.
    have hfits : fitsShort (distance pc target).toInt = true := by
      have hlow := d.toInt16.le_toInt
      have hhigh := d.toInt16.toInt_lt
      rw [hd, fitsShort, Bool.and_eq_true, decide_eq_true_eq, decide_eq_true_eq]
      omega
    have hsame : (distance pc target).toInt16 = d.toInt16 :=
      Int16.toInt.inj ((toInt_toInt16_of_fitsShort hfits).trans hd)
    have hwritten := writtenAs_shortBranch (isWideBranch_of_isShortBranch hop) hfits
    rw [hsame, UInt16.toUInt16_toInt16] at hwritten
    exact ⟨[], Bytes.word16 d, rfl, rfl, hwritten⟩
  | wideBranch hop hread =>
    exact ⟨[], _, eq_of_readTarget hpc hsize _ _ _ hread, rfl, writtenAs_wideBranch hop⟩
  | tableSwitch hop hskipped hread =>
    obtain ⟨operands, rfl, hgap, hwritten⟩ := writtenAs_of_readTableSwitch hpc hsize hread
    rw [hop, ← List.append_assoc]
    exact ⟨_, operands, rfl, hskipped.trans hgap.symm, hwritten⟩
  | lookupSwitch hop hskipped hread =>
    obtain ⟨operands, rfl, hgap, hwritten⟩ := writtenAs_of_readLookupSwitch hpc hsize hread
    rw [hop, ← List.append_assoc]
    exact ⟨_, operands, rfl, hskipped.trans hgap.symm, hwritten⟩
  | plain => exact ⟨[], _, rfl, rfl, rfl⟩

/-- **The walk goes on where the reader stops.** It skips as many bytes as the instruction has when
it is written, and that is what the reader leaves. -/
theorem drop_of_read (h : read size pc op bs = .ok (i, rest)) :
    bs.drop (i.size pc false - 1) = rest := by
  obtain ⟨_, _, htaken⟩ := read_eq_ok h
  obtain ⟨skipped, operands, rfl, _, _⟩ := bytes_of_read hpc hsize h
  rw [List.length_append] at htaken
  exact List.drop_left' (by omega)

end Read

/-! ## Rows of instructions

The padding is in the same places in both, since it depends on where a switch stands. `Cleared` goes
along the two rows of bytes together. -/

/-- Code and the same code with zeros for what its instructions skip, from `pc` on. -/
inductive Cleared : Nat → List (Nat × Instruction) → Bytes → Bytes → Prop where
  | nil (pc : Nat) : Cleared pc [] [] []
  | cons {pc : Nat} {i : Instruction} {body : List (Nat × Instruction)} {op : UInt8}
      {skipped operands code written : Bytes} (hskipped : skipped.length = i.gap pc)
      (hsize : 1 + skipped.length + operands.length = i.size pc false)
      (hrest : Cleared (pc + i.size pc false) body code written) :
    Cleared pc ((pc, i) :: body) (op :: (skipped ++ operands ++ code))
      (op :: (List.replicate skipped.length 0 ++ operands ++ written))

/-- Whether an offset is one of a byte that is skipped: of the padding of a switch. -/
def InPadding (body : List (Nat × Instruction)) (offset : Nat) : Prop :=
  ∃ e ∈ body, e.1 < offset ∧ offset ≤ e.1 + e.2.gap e.1

/-- The walk over code gives instructions that assemble to the cleared code. The induction is on the
walk, from the instruction that comes next. -/
theorem cleared_of_decodeOnto {size pc : Nat} {bs : Bytes} {done body : List (Nat × Instruction)}
    (hdecode : decodeOnto size done pc bs = .ok body) (hsize : size ≤ 2147483648)
    (hend : pc + bs.length ≤ size) :
    ∃ behind written, body = done.reverse ++ behind ∧ Cleared pc behind bs written
      ∧ ∀ front, assembleOnto front pc (behind.map (·.2)) = .ok (front.reverse.flatten ++ written) := by
  induction done, pc, bs using decodeOnto.induct size generalizing body with
  | case1 done pc =>
    unfold decodeOnto at hdecode
    cases hdecode
    exact ⟨[], [], by simp, .nil pc, fun front => by simp [assembleOnto, pure, Except.pure]⟩
  | case2 done pc op rest e hread =>
    unfold decodeOnto at hdecode
    simp only [hread] at hdecode
    cases hdecode
  | case3 done pc op rest i left hread ih =>
    unfold decodeOnto at hdecode
    simp only [hread] at hdecode
    rw [List.length_cons] at hend
    have hpc : pc < 2147483648 := by omega
    -- The walk goes on with what the reader leaves, and the skipped bytes are all that is lost.
    rw [drop_of_read hpc hsize hread] at hdecode ih
    obtain ⟨_, _, htaken⟩ := read_eq_ok hread
    obtain ⟨skipped, operands, rfl, hskipped, hwritten⟩ := bytes_of_read hpc hsize hread
    simp only [List.length_append] at hend htaken
    have hwidth : 1 + skipped.length + operands.length = i.size pc false := by omega
    obtain ⟨behind, written, hbody, hcleared, hassemble⟩ := ih hdecode (by omega)
    refine ⟨(pc, i) :: behind, _, by simp [hbody], .cons hskipped hwidth hcleared, fun front => ?_⟩
    show (i.bytes (fun target => .ok target) pc false >>= fun bs => _) = _
    rw [hwritten]
    refine (hassemble _).trans ?_
    simp [hskipped]

theorem inPadding_cons {pc : Nat} {i : Instruction} {body : List (Nat × Instruction)}
    {offset : Nat} : InPadding ((pc, i) :: body) offset
      ↔ (pc < offset ∧ offset ≤ pc + i.gap pc) ∨ InPadding body offset := by
  simp [InPadding]

namespace Cleared

variable {pc : Nat} {body : List (Nat × Instruction)} {code written : Bytes}

theorem length_eq (h : Cleared pc body code written) : written.length = code.length := by
  induction h with
  | nil => rfl
  | cons _ _ _ ih => simp [ih]

/-- Only bytes of the code are skipped. -/
theorem bounds (h : Cleared pc body code written) {offset : Nat} (hpadding : InPadding body offset) :
    pc < offset ∧ offset < pc + code.length := by
  induction h with
  | nil => exact absurd hpadding (by simp [InPadding])
  | cons hskipped hsize _ ih =>
    simp only [List.length_cons, List.length_append]
    rcases inPadding_cons.1 hpadding with hhere | hbehind
    · omega
    · have := ih hbehind
      omega

/-- What is skipped is zero in it. The assembler writes zeros there. Whatever the bytes were that
the decoder skipped, they are lost. -/
theorem getElem?_of_inPadding (h : Cleared pc body code written) {k : Nat}
    (hpadding : InPadding body (pc + k)) : written[k]? = some 0 := by
  induction h generalizing k with
  | nil => exact absurd hpadding (by simp [InPadding])
  | @cons pc i body op skipped operands code written hskipped hsize hrest ih =>
    have hfront : (op :: (List.replicate skipped.length 0 ++ operands)).length = i.size pc false := by
      simp only [List.length_cons, List.length_append, List.length_replicate]
      omega
    show ((op :: (List.replicate skipped.length 0 ++ operands)) ++ written)[k]? = some 0
    -- Bytes that this instruction skips, or one behind it.
    rcases inPadding_cons.1 hpadding with hhere | hbehind
    · obtain ⟨k, rfl⟩ : ∃ j, k = j + 1 := ⟨k - 1, by omega⟩
      rw [List.cons_append, List.getElem?_cons_succ, List.append_assoc,
        List.getElem?_append_left (by rw [List.length_replicate]; omega),
        List.getElem?_replicate_of_lt (by omega)]
    · have hpast := (hrest.bounds hbehind).1
      rw [List.getElem?_append_right (by omega), hfront]
      refine ih ?_
      rwa [show pc + i.size pc false + (k - i.size pc false) = pc + k by omega]

/-- All else is as it was. Opcodes, operands and the order of the cases are kept. So code without
switches is assembled byte by byte. -/
theorem getElem?_of_not_inPadding (h : Cleared pc body code written) {k : Nat}
    (hpadding : ¬ InPadding body (pc + k)) : written[k]? = code[k]? := by
  induction h generalizing k with
  | nil => rfl
  | @cons pc i body op skipped operands code written hskipped hsize hrest ih =>
    rw [inPadding_cons, not_or] at hpadding
    obtain ⟨hhere, hbehind⟩ := hpadding
    cases k with
    | zero => rfl
    | succ k =>
      -- The opcode is followed by what is skipped, where this offset is not.
      have hpast : skipped.length ≤ k := by omega
      rw [List.getElem?_cons_succ, List.getElem?_cons_succ, List.append_assoc, List.append_assoc,
        List.getElem?_append_right (by rwa [List.length_replicate]),
        List.getElem?_append_right hpast, List.length_replicate]
      by_cases hoperand : k - skipped.length < operands.length
      · rw [List.getElem?_append_left hoperand, List.getElem?_append_left hoperand]
      · rw [List.getElem?_append_right (by omega), List.getElem?_append_right (by omega)]
        refine ih ?_
        rwa [show pc + i.size pc false + (k - skipped.length - operands.length) = pc + (k + 1) by
          omega]

/-- So it is the code itself where the padding was zero all along. No other difference is
possible. -/
theorem eq_iff (h : Cleared 0 body code written) :
    written = code ↔ ∀ k, InPadding body k → code[k]? = some 0 := by
  have hpadding (k : Nat) (hk : InPadding body k) : written[k]? = some 0 :=
    h.getElem?_of_inPadding (by rwa [Nat.zero_add])
  constructor
  · rintro rfl
    exact hpadding
  · intro hzeros
    refine List.ext_getElem? fun k => ?_
    by_cases hk : InPadding body k
    · rw [hpadding k hk, hzeros k hk]
    · exact h.getElem?_of_not_inPadding (by rwa [Nat.zero_add])

end Cleared

/-! ## Whole code arrays

Assembling what was decoded gives the array back, up to bytes that the decoder skips. -/

/-- **Decoded code assembles to itself**, but for the padding of switches, which becomes zeros. The
instructions stand in a row from the first byte to the last, and all targets are among their
offsets. -/
theorem assemble_of_decode {code : Bytes} {body : List (Nat × Instruction)}
    (hdecode : decode code = .ok body) (hlength : code.length < 2147483648) :
    Consecutive 0 body code.length ∧ (∀ e ∈ body, ∀ t ∈ e.2.targets, t ∈ body.map (·.1))
      ∧ ∃ written, assemble (body.map (·.2)) = .ok written ∧ written.length = code.length
        ∧ (∀ k, InPadding body k → k < code.length ∧ written[k]? = some 0)
        ∧ (∀ k, ¬ InPadding body k → written[k]? = code[k]?)
        ∧ (written = code ↔ ∀ k, InPadding body k → code[k]? = some 0) := by
  refine ⟨consecutive_of_decode hdecode, mem_starts_of_decode hdecode, ?_⟩
  obtain ⟨behind, written, hbody, hcleared, hassemble⟩ :=
    cleared_of_decodeOnto (decode_eq_ok.1 hdecode).1 (by omega) (by omega)
  obtain rfl : body = behind := hbody
  refine ⟨written, hassemble [], hcleared.length_eq, fun k hk => ?_, fun k hk => ?_,
    hcleared.eq_iff⟩
  · have hbounds := hcleared.bounds hk
    exact ⟨by omega, hcleared.getElem?_of_inPadding (by rwa [Nat.zero_add])⟩
  · exact hcleared.getElem?_of_not_inPadding (by rwa [Nat.zero_add])

/-- A switch that leads to itself, with padding that is not zeros. Assembling it again clears the
padding, and changes nothing else. -/
theorem assemble_of_decode_padded :
    let code : Bytes := [0xab, 1, 2, 3, 0, 0, 0, 0, 0, 0, 0, 0]
    let body := [(0, lookupSwitch 0 [])]
    decode code = .ok body ∧ code.length < 2147483648 ∧ InPadding body 2
      ∧ ∃ written, assemble (body.map (·.2)) = .ok written ∧ written ≠ code
        ∧ written[2]? = some 0 := by
  intro code body
  have hdecode : decode code = .ok body := by decide +kernel
  have hlength : code.length < 2147483648 := by decide
  have hpadding : InPadding body 2 := ⟨_, List.mem_cons_self .., by decide, by decide⟩
  obtain ⟨_, _, written, hassemble, _, hzeros, _, hsame⟩ := assemble_of_decode hdecode hlength
  refine ⟨hdecode, hlength, hpadding, written, hassemble, fun heq => ?_, (hzeros 2 hpadding).2⟩
  exact absurd (hsame.1 heq 2 hpadding) (by decide)

end ClassLoom.Instruction
