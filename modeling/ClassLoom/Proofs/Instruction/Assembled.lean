import ClassLoom.Proofs.Listing.Decoded

/-!
# Assembled instructions decode

As branches are never widened, the offsets of assembled instructions are known before any of them
is written: each stands where the sizes of those before it add up to (`laidOut`). Decoding finds
them there again. The one thing that can go wrong is a short branch that does not reach.

* `Consecutive.eq_laidOut`: every row of instructions is laid out so;
* `overflow_of_assembleOnto`: what goes wrong when assembling fails;
* `decode_reassembled`: decoded instructions stay what they are;
* `decode_of_assemble`: what decoding gives for all instructions that are well-formed.
-/

namespace ClassLoom.Instruction

/-! ## Running offsets

Instructions that come without offsets get them by adding up sizes. The padding of a switch depends
on its offset, so the sizes are taken where the instructions stand. -/

/-- Instructions that stand one behind the other from `pc` on, with their offsets. -/
def laidOut : Nat → List Instruction → List (Nat × Instruction)
  | _, [] => []
  | pc, i :: rest => (pc, i) :: laidOut (pc + i.size pc false) rest

/-- The offset behind them. -/
def endOf : Nat → List Instruction → Nat
  | pc, [] => pc
  | pc, i :: rest => endOf (pc + i.size pc false) rest

section Rows

variable {pc : Nat} {instructions : List Instruction}

/-- Instructions that are laid out stand one behind the other. -/
theorem consecutive_laidOut (pc : Nat) (instructions : List Instruction) :
    Consecutive pc (laidOut pc instructions) (endOf pc instructions) := by
  induction instructions generalizing pc with
  | nil => rfl
  | cons i rest ih => exact ⟨rfl, ih _⟩

/-- A row of instructions is laid out as their sizes say. Two rows of the same instructions, each
without gaps, can differ only in where they start. -/
theorem Consecutive.eq_laidOut {stop : Nat} {body : List (Nat × Instruction)}
    (h : Consecutive pc body stop) :
    body = laidOut pc (body.map (·.2)) ∧ stop = endOf pc (body.map (·.2)) := by
  induction body generalizing pc with
  | nil =>
    cases h
    exact ⟨rfl, rfl⟩
  | cons e body ih =>
    obtain ⟨offset, i⟩ := e
    obtain ⟨rfl, hrest⟩ := h
    obtain ⟨hbody, hstop⟩ := ih hrest
    exact ⟨congrArg ((offset, i) :: ·) hbody, hstop⟩

/-- Targets at which instructions of a row start lie in front of its end. -/
theorem Consecutive.target_lt {stop : Nat} {body : List (Nat × Instruction)}
    (h : Consecutive pc body stop) (hwf : ∀ e ∈ body, e.2.WellFormed) {target : Nat}
    (htarget : target ∈ body.map (·.1)) : target < stop := by
  obtain ⟨e, he, rfl⟩ := List.mem_map.1 htarget
  exact ((h.bounds hwf).2 e he).2

/-- Laying instructions out gives no others. -/
theorem mem_of_mem_laidOut {e : Nat × Instruction} (h : e ∈ laidOut pc instructions) :
    e.2 ∈ instructions := by
  induction instructions generalizing pc with
  | nil => cases h
  | cons i rest ih =>
    rcases List.mem_cons.1 h with rfl | h
    · exact List.mem_cons_self ..
    · exact List.mem_cons_of_mem _ (ih h)

end Rows

/-! ## Assembling is writing lines without labels

The writer of listings does all that the assembler does, with labels. Without labels and without
widening the two are the same, so what is known of listings is known here. -/

theorem placed_id (i : Instruction) : i.placed id false = i := by
  cases i <;> simp [placed]

/-- Assembling instructions is writing a listing of them that has no labels, with every target at
its own offset. -/
theorem assembleOnto_eq_bytesOnto (done : List Bytes) (pc : Nat) (instructions : List Instruction) :
    assembleOnto done pc instructions
      = Listing.bytesOnto (fun target => .ok target) done pc
        (instructions.map (Line.code · false)) := by
  induction instructions generalizing done pc with
  | nil => rfl
  | cons i rest ih =>
    show (i.bytes _ pc false >>= fun bs => assembleOnto (bs :: done) _ rest) = _
    simp only [ih]
    rfl

/-- The instructions of such a listing stand where they are laid out. -/
theorem placed_map_code (pc : Nat) (instructions : List Instruction) :
    Listing.placed id pc (instructions.map (Line.code · false)) = laidOut pc instructions := by
  induction instructions generalizing pc with
  | nil => rfl
  | cons i rest ih =>
    rw [List.map_cons, Listing.placed, placed_id, ih]
    rfl

/-- The listing ends where the instructions end. -/
theorem stop_map_code (pc : Nat) (instructions : List Instruction) :
    Listing.stop pc (instructions.map (Line.code · false)) = endOf pc instructions := by
  induction instructions generalizing pc with
  | nil => rfl
  | cons i rest ih => exact ih _

/-! ## Failures

Offsets inside the code are shorter than 32 bits can tell, so only short branches can fail to
reach. -/

/-- An instruction is not written where a target has no place, or where it is a short branch that
does not reach. -/
theorem error_of_bytes {i : Instruction} {place : Nat → Except ClassError Nat} {pc : Nat}
    {wide : Bool} {e : ClassError} (h : i.bytes place pc wide = .error e) :
    (∃ t ∈ i.targets, place t = .error e)
      ∨ ∃ op target offset, i = branch op target ∧ wide = false ∧ Opcode.isWideBranch op = false
        ∧ place target = .ok offset ∧ fitsShort (distance pc offset).toInt = false
        ∧ e = .branchOverflow pc := by
  -- Nothing but a short branch looks at how far its targets are.
  cases i with
  | plain bytes => cases h
  | branch op target =>
    rcases bind_eq_error.1 h with hfails | ⟨offset, hplace, h⟩
    · exact .inl ⟨target, List.mem_cons_self .., hfails⟩
    · dsimp only at h
      split at h
      · cases h
      · next hnarrow =>
        split at h
        · cases h
        · next hkept =>
          split at h
          · cases h
          · next hlong =>
            cases h
            exact .inr ⟨op, target, offset, rfl, by simpa using hkept, by simpa using hnarrow,
              hplace, by simpa using hlong, rfl⟩
  | tableSwitch default low targets =>
    rcases bind_eq_error.1 h with hfails | ⟨_, _, h⟩
    · exact .inl ⟨default, List.mem_cons_self .., hfails⟩
    · rcases bind_eq_error.1 h with hfails | ⟨_, _, h⟩
      · obtain ⟨t, hmem, hfails⟩ := exists_error_of_mapM hfails
        exact .inl ⟨t, List.mem_cons_of_mem _ hmem, hfails⟩
      · cases h
  | lookupSwitch default cases =>
    rcases bind_eq_error.1 h with hfails | ⟨_, _, h⟩
    · exact .inl ⟨default, List.mem_cons_self .., hfails⟩
    · rcases bind_eq_error.1 h with hfails | ⟨_, _, h⟩
      · obtain ⟨c, hmem, hfails⟩ := exists_error_of_mapM hfails
        rcases bind_eq_error.1 hfails with hfails | ⟨_, _, h⟩
        · exact .inl ⟨c.2, List.mem_cons_of_mem _ (List.mem_map_of_mem hmem), hfails⟩
        · cases h
      · cases h

/-- Only a short branch that does not reach is not written. -/
theorem overflow_of_bytes {i : Instruction} {pc : Nat} {e : ClassError}
    (h : i.bytes (fun target => .ok target) pc false = .error e) :
    ∃ op target, i = branch op target ∧ Opcode.isWideBranch op = false
      ∧ fitsShort (distance pc target).toInt = false ∧ e = .branchOverflow pc := by
  rcases error_of_bytes h with ⟨_, _, hfails⟩ | ⟨op, target, offset, hi, -, hnarrow, hplace, hlong⟩
  · cases hfails
  · cases hplace
    exact ⟨op, target, hi, hnarrow, hlong⟩

/-- **Where assembling fails**, some short branch is too far from its target, and the error names
its offset. -/
theorem overflow_of_assembleOnto {done : List Bytes} {pc : Nat} {instructions : List Instruction}
    {e : ClassError} (h : assembleOnto done pc instructions = .error e) :
    ∃ offset op target, (offset, branch op target) ∈ laidOut pc instructions
      ∧ Opcode.isWideBranch op = false ∧ fitsShort (distance offset target).toInt = false
      ∧ e = .branchOverflow offset := by
  induction instructions generalizing done pc with
  | nil => cases h
  | cons i rest ih =>
    rcases bind_eq_error.1 h with hhere | ⟨bs, _, hbehind⟩
    · obtain ⟨op, target, rfl, hfails⟩ := overflow_of_bytes hhere
      exact ⟨pc, op, target, List.mem_cons_self .., hfails⟩
    · obtain ⟨offset, op, target, hmem, hfails⟩ := ih hbehind
      exact ⟨offset, op, target, List.mem_cons_of_mem _ hmem, hfails⟩

/-! ## Decoding what was assembled

The round trip in both orders. The length of the code is bounded, since offsets are counted modulo
two to the 32. -/

/-- Assembled instructions are spelled by their bytes, if all targets lie inside the code. The
offsets of all instructions are those that their sizes add up to. -/
theorem spells_of_assemble {instructions : List Instruction} {code : Bytes}
    (h : assemble instructions = .ok code) (hwf : ∀ i ∈ instructions, i.WellFormed)
    (hin : ∀ i ∈ instructions, ∀ t ∈ i.targets, t < endOf 0 instructions)
    (hlength : endOf 0 instructions ≤ 2147483648) :
    code.length = endOf 0 instructions
      ∧ Spells (endOf 0 instructions) 0 code (laidOut 0 instructions) := by
  have hlines : ∀ i wide, Line.code i wide ∈ instructions.map (Line.code · false) →
      i ∈ instructions := by
    intro i wide hmem
    obtain ⟨i', hi', hline⟩ := List.mem_map.1 hmem
    cases hline
    exact hi'
  unfold assemble at h
  rw [assembleOnto_eq_bytesOnto] at h
  -- No line is a label, and no line is wide.
  obtain ⟨bs, hcode, hstop, hspells⟩ := Listing.spells_of_bytesOnto (f := id) h
    (fun i wide hmem => hwf i (hlines i wide hmem)) (fun _ _ _ _ _ => rfl)
    (fun i wide hmem => hin i (hlines i wide hmem)) (Nat.le_of_eq (stop_map_code 0 _)) hlength
  rw [List.reverse_nil, List.flatten_nil, List.nil_append] at hcode
  rw [Nat.zero_add, stop_map_code] at hstop
  rw [placed_map_code] at hspells
  subst hcode
  exact ⟨hstop, hspells⟩

/-- **Assembling decoded code keeps all instructions**: decoding finds them again where they were,
so assembling them once more changes nothing. -/
theorem decode_reassembled {code written : Bytes} {body : List (Nat × Instruction)}
    (hdecode : decode code = .ok body) (hlength : code.length ≤ 2147483648)
    (h : assemble (body.map (·.2)) = .ok written) : decode written = .ok body := by
  -- A row that has been decoded is laid out, so it can be assembled as any other.
  have hrow := consecutive_of_decode hdecode
  have hwf := wellFormed_of_decode hdecode
  have hstarts := mem_starts_of_decode hdecode
  obtain ⟨hbody, hstop⟩ := hrow.eq_laidOut
  obtain ⟨hwritten, hspells⟩ := spells_of_assemble h (List.forall_mem_map.2 hwf)
    (List.forall_mem_map.2 fun e he t ht => hstop ▸ hrow.target_lt hwf (hstarts e he t ht))
    (by omega)
  rw [← hwritten, ← hbody] at hspells
  exact decode_eq_ok.2 ⟨hspells.decodeOnto [], hstarts⟩

/-- **Assembled instructions decode** to themselves, each at its running offset. Assembling fails
only at a short branch whose offset does not fit 16 bits. Targets have to be offsets of
instructions, which is what decoding asks for. -/
theorem decode_of_assemble (instructions : List Instruction)
    (hwf : ∀ i ∈ instructions, i.WellFormed)
    (htargets : ∀ i ∈ instructions, ∀ t ∈ i.targets, t ∈ (laidOut 0 instructions).map (·.1))
    (hlength : endOf 0 instructions < 2147483648) :
    (∀ code, assemble instructions = .ok code →
      decode code = .ok (laidOut 0 instructions) ∧ code.length = endOf 0 instructions)
    ∧ ∀ e, assemble instructions = .error e →
      ∃ pc op target, (pc, branch op target) ∈ laidOut 0 instructions
        ∧ Opcode.isShortBranch op = true ∧ fitsShort ((target : Int) - (pc : Int)) = false
        ∧ e = .branchOverflow pc := by
  have hwf' : ∀ e ∈ laidOut 0 instructions, e.2.WellFormed :=
    fun e he => hwf e.2 (mem_of_mem_laidOut he)
  have hrow := consecutive_laidOut 0 instructions
  -- Where an instruction starts is in front of the end, so no target needs to be asked about a
  -- second time.
  have hin : ∀ i ∈ instructions, ∀ t ∈ i.targets, t < endOf 0 instructions :=
    fun i hi t ht => hrow.target_lt hwf' (htargets i hi t ht)
  constructor
  · intro code hassemble
    obtain ⟨hcode, hspells⟩ := spells_of_assemble hassemble hwf hin (by omega)
    refine ⟨decode_eq_ok.2 ⟨?_, fun e he => htargets e.2 (mem_of_mem_laidOut he)⟩, hcode⟩
    rw [hcode]
    exact hspells.decodeOnto []
  · intro e hassemble
    obtain ⟨pc, op, target, hmem, hnarrow, hlong, rfl⟩ := overflow_of_assembleOnto hassemble
    have hpc := ((hrow.bounds hwf').2 _ hmem).2
    have htarget := hin _ (mem_of_mem_laidOut hmem) target (List.mem_cons_self ..)
    have hshort : Opcode.isShortBranch op = true :=
      (hwf' _ hmem).resolve_right (by rw [hnarrow]; exact Bool.false_ne_true)
    -- The distance is counted modulo 2 ^ 32, which is no loss inside so short a body.
    rw [toInt_distance (by omega) (by omega)] at hlong
    exact ⟨pc, op, target, hmem, hshort, hlong, rfl⟩

/-- A loop over a switch that is padded. -/
theorem decode_of_assemble_loop :
    let instructions := [op 0, tableSwitch 27 5 [0, 24], branch Opcode.goto 1, op Opcode.vreturn]
    ∃ code, assemble instructions = .ok code
      ∧ decode code = .ok [(0, op 0), (1, tableSwitch 27 5 [0, 24]), (24, branch Opcode.goto 1),
        (27, op Opcode.vreturn)] := by
  intro instructions
  have hdecode := decode_of_assemble instructions (by decide) (by decide) (by decide)
  obtain ⟨code, hassemble⟩ : ∃ code, assemble instructions = .ok code := by decide +kernel
  exact ⟨code, hassemble, (hdecode.1 code hassemble).1⟩

end ClassLoom.Instruction
