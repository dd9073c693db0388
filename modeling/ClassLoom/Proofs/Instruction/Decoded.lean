import ClassLoom.Proofs.Instruction.WrittenForm

/-!
# What decoding gives

A code array that `Instruction.decode` accepts is a row of well-formed instructions, each
starting where the one before it ends, from offset 0 up to the length of the array, and all
targets are among those offsets.

* `reads_of_read`, `read_eq_ok`: single instructions, by their kinds;
* `Consecutive`: offsets that follow from the sizes of the instructions;
* `Spells.decodeOnto`: the walk over the code finds the instructions that the bytes spell;
* `decode_eq_ok`: decoding is that walk and a check of targets;
* `consecutive_of_decode`, `wellFormed_of_decode`, `mem_starts_of_decode`: what an accepted
  array is like.
-/

namespace ClassLoom.Instruction

/-! ## Readers take what they give

The sizes of instructions are known from what they are. That a reader takes just as much is what
makes the offsets of a walk the running sums of sizes. -/

/-- Whether a reader takes `width` bytes whenever it succeeds. -/
def Takes {α : Type} (p : Reader α) (width : Nat) : Prop :=
  ∀ bs a rest, p bs = .ok (a, rest) → bs.length = width + rest.length

theorem takes_word32 : Takes Reader.word32 4 := by
  intro bs w rest h
  rw [Reader.word32_eq_ok.1 h, List.length_append, Bytes.length_word32]

/-- Items of a fixed width take so much each. The reader stops as soon as one of them fails. So the
width of a switch is known from the number of its cases. -/
theorem takes_times {α : Type} {p : Reader α} {width : Nat} (hp : Takes p width) (n : Nat) :
    Takes (Reader.times n p) (width * n) := by
  induction n with
  | zero =>
    intro bs items rest h
    cases h
    simp
  | succ n ih =>
    intro bs items rest h
    obtain ⟨a, mid, more, ha, hmore, rfl⟩ := Reader.times_succ_eq_ok.1 h
    have hhead := hp bs a mid ha
    have htail := ih mid more rest hmore
    rw [Nat.mul_succ]
    omega

/-- A target of a switch takes four bytes. -/
theorem takes_readTarget (size pc : Nat) : Takes (readTarget size pc) 4 := by
  intro bs target rest h
  obtain ⟨d, mid, hword, htarget⟩ := Reader.bind_eq_ok.1 h
  obtain ⟨_, rfl⟩ := Reader.lift_eq_ok.1 htarget
  exact takes_word32 bs d _ hword

/-- A case of a lookup switch takes eight bytes. -/
theorem takes_readCase (size pc : Nat) : Takes (readCase size pc) 8 := by
  intro bs c rest h
  obtain ⟨key, mid, hkey, h⟩ := Reader.bind_eq_ok.1 h
  obtain ⟨target, mid', htarget, h⟩ := Reader.bind_eq_ok.1 h
  cases h
  have hfirst := takes_word32 bs key mid hkey
  have hsecond := takes_readTarget size pc mid target rest htarget
  omega

/-! ## Single instructions

An opcode tells which of five things is behind it. The inversion of the reader is done once, as an
inductive with a case for each. -/

section Read

variable {size pc : Nat} {i : Instruction} {bs rest : Bytes}

/-- How a table switch is read: its default, the first and the last index, and a target for each
of them. -/
theorem readTableSwitch_eq_ok (h : readTableSwitch size pc bs = .ok (i, rest)) :
    ∃ default low high targets mid behind, i = tableSwitch default low.toInt32 targets
      ∧ readTarget size pc bs = .ok (default, mid)
      ∧ mid = Bytes.word32 low ++ (Bytes.word32 high ++ behind)
      ∧ Reader.times targets.length (readTarget size pc) behind = .ok (targets, rest)
      ∧ 0 < targets.length ∧ low.toInt32.toInt + targets.length = high.toInt32.toInt + 1 := by
  unfold readTableSwitch at h
  obtain ⟨default, mid, hdefault, h⟩ := Reader.bind_eq_ok.1 h
  obtain ⟨low, afterLow, hlow, h⟩ := Reader.bind_eq_ok.1 h
  obtain ⟨high, behind, hhigh, h⟩ := Reader.bind_eq_ok.1 h
  simp only at h
  split at h
  · cases h
  · next hordered =>
    obtain ⟨targets, left, htargets, h⟩ := Reader.bind_eq_ok.1 h
    cases h
    rw [Int32.lt_iff_toInt_lt] at hordered
    -- As many targets as there are indices from the low one to the high one.
    have hcount := Reader.length_of_times htargets
    rw [Reader.word32_eq_ok] at hlow hhigh
    rw [← hcount] at htargets
    refine ⟨default, low, high, targets, mid, behind, rfl, hdefault, ?_, htargets, ?_, ?_⟩
    · rw [hlow, hhigh]
    · omega
    · omega

/-- How a lookup switch is read: its default, the number of its cases, and the cases. The number is
signed, and must not be negative. -/
theorem readLookupSwitch_eq_ok (h : readLookupSwitch size pc bs = .ok (i, rest)) :
    ∃ default count cases mid behind, i = lookupSwitch default cases
      ∧ readTarget size pc bs = .ok (default, mid) ∧ mid = Bytes.word32 count ++ behind
      ∧ Reader.times cases.length (readCase size pc) behind = .ok (cases, rest)
      ∧ count.toInt32.toInt = cases.length := by
  unfold readLookupSwitch at h
  obtain ⟨default, mid, hdefault, h⟩ := Reader.bind_eq_ok.1 h
  obtain ⟨count, behind, hcount, h⟩ := Reader.bind_eq_ok.1 h
  simp only at h
  split at h
  · cases h
  · next hnonneg =>
    obtain ⟨cases, left, hcases, h⟩ := Reader.bind_eq_ok.1 h
    cases h
    rw [Int32.lt_iff_toInt_lt, Int32.toInt_zero] at hnonneg
    have hlength := Reader.length_of_times hcases
    rw [← hlength] at hcases
    refine ⟨default, count, cases, mid, behind, rfl, hdefault, Reader.word32_eq_ok.1 hcount, hcases,
      ?_⟩
    omega

/-- What there is to read behind an opcode: branches with short and with wide offsets, the two
switches, and instructions as bytes. -/
inductive Reads (size pc : Nat) (op : UInt8) : Bytes → Instruction → Bytes → Prop where
  | shortBranch {d : UInt16} {target : Nat} {rest : Bytes} (hop : Opcode.isShortBranch op = true)
      (htarget : targetAt size pc d.toInt16.toInt = .ok target) :
    Reads size pc op (Bytes.word16 d ++ rest) (branch op target) rest
  | wideBranch {target : Nat} {bs rest : Bytes} (hop : Opcode.isWideBranch op = true)
      (hread : readTarget size pc bs = .ok (target, rest)) :
    Reads size pc op bs (branch op target) rest
  | tableSwitch {skipped bs rest : Bytes} {i : Instruction} (hop : op = Opcode.tableSwitch)
      (hskipped : skipped.length = padding pc) (hread : readTableSwitch size pc bs = .ok (i, rest)) :
    Reads size pc op (skipped ++ bs) i rest
  | lookupSwitch {skipped bs rest : Bytes} {i : Instruction} (hop : op = Opcode.lookupSwitch)
      (hskipped : skipped.length = padding pc) (hread : readLookupSwitch size pc bs = .ok (i, rest)) :
    Reads size pc op (skipped ++ bs) i rest
  | plain {tail rest : Bytes} {length : Nat} (hshort : Opcode.isShortBranch op = false)
      (hwide : Opcode.isWideBranch op = false) (htable : op ≠ Opcode.tableSwitch)
      (hlookup : op ≠ Opcode.lookupSwitch)
      (hlength : plainLength pc op (tail ++ rest) = .ok length) (htail : tail.length = length - 1) :
    Reads size pc op (tail ++ rest) (plain (op :: tail)) rest

/-- **What is read behind an opcode** is one of the five. The order in which they are told apart is
that of the reader. -/
theorem reads_of_read {op : UInt8} (h : read size pc op bs = .ok (i, rest)) :
    Reads size pc op bs i rest := by
  -- The tests of the reader are taken in its order, and each is a form of its own.
  unfold read at h
  split at h
  · next hop =>
    obtain ⟨d, mid, hword, h⟩ := Reader.bind_eq_ok.1 h
    obtain ⟨target, mid', hlift, h⟩ := Reader.bind_eq_ok.1 h
    obtain ⟨htarget, rfl⟩ := Reader.lift_eq_ok.1 hlift
    cases h
    rw [Reader.word16_eq_ok.1 hword]
    exact .shortBranch hop htarget
  · next hshort =>
    split at h
    · next hop =>
      obtain ⟨target, mid, hread, h⟩ := Reader.bind_eq_ok.1 h
      cases h
      exact .wideBranch hop hread
    · next hwide =>
      split at h
      · next hop =>
        obtain ⟨skipped, mid, hskipped, hread⟩ := Reader.bind_eq_ok.1 h
        obtain ⟨hbs, hlength⟩ := Reader.bytes_eq_ok.1 hskipped
        rw [hbs]
        exact .tableSwitch hop hlength hread
      · next htable =>
        split at h
        · next hop =>
          obtain ⟨skipped, mid, hskipped, hread⟩ := Reader.bind_eq_ok.1 h
          obtain ⟨hbs, hlength⟩ := Reader.bytes_eq_ok.1 hskipped
          rw [hbs]
          exact .lookupSwitch hop hlength hread
        · next hlookup =>
          obtain ⟨behind, mid, hget, h⟩ := Reader.bind_eq_ok.1 h
          cases hget
          obtain ⟨length, mid, hlift, h⟩ := Reader.bind_eq_ok.1 h
          obtain ⟨hlength, rfl⟩ := Reader.lift_eq_ok.1 hlift
          obtain ⟨tail, mid, htail, h⟩ := Reader.bind_eq_ok.1 h
          cases h
          obtain ⟨hbs, htailLength⟩ := Reader.bytes_eq_ok.1 htail
          rw [hbs] at hlength ⊢
          exact .plain (by simpa using hshort) (by simpa using hwide) htable hlookup hlength
            htailLength

theorem fixedLength?_ne_zero (op : UInt8) : fixedLength? op ≠ some 0 := by
  unfold fixedLength?
  simp only [apply_ite (· ≠ some 0)]
  simp

/-- A length that the table of lengths gives belongs to a whole instruction. Behind a `wide` the
length is that of the widened instruction. -/
theorem isWhole_of_plainLength {op : UInt8} {tail : Bytes} {length : Nat}
    (hshort : Opcode.isShortBranch op = false) (hwide : Opcode.isWideBranch op = false)
    (htable : op ≠ Opcode.tableSwitch) (hlookup : op ≠ Opcode.lookupSwitch)
    (hlength : plainLength pc op bs = .ok length) (htail : tail.length = length - 1)
    (hbs : bs = tail ++ rest) : IsWhole (op :: tail) := by
  refine ⟨hshort, hwide, htable, hlookup, ?_⟩
  unfold plainLength at hlength
  split at hlength
  · next hprefix =>
    rw [if_pos hprefix]
    split at hlength
    · cases hlength
    · next inner behind =>
      split at hlength
      · next n hinner =>
        cases hlength
        -- Every instruction behind the prefix has at least four bytes.
        have hlong : 4 ≤ length := by
          unfold wideLength? at hinner
          split at hinner
          · cases hinner
            decide
          · split at hinner <;> cases hinner
            decide
        cases tail with
        | nil => simp only [List.length_nil] at htail; omega
        | cons inner' tail =>
          cases hbs
          show wideLength? inner = _
          rw [hinner, htail]
          exact congrArg some (by omega)
      · cases hlength
  · next hprefix =>
    rw [if_neg hprefix]
    split at hlength
    · next n hfixed =>
      cases hlength
      have hpos : length ≠ 0 := by
        rintro rfl
        exact fixedLength?_ne_zero op hfixed
      rw [hfixed, htail]
      exact congrArg some (by omega)
    · cases hlength

/-- What is read is a well-formed instruction with the opcode that was found, and as many bytes
are taken as it takes up. -/
theorem read_eq_ok {op : UInt8} (h : read size pc op bs = .ok (i, rest)) :
    i.WellFormed ∧ i.opcode = op ∧ bs.length + 1 = i.size pc false + rest.length := by
  cases reads_of_read h with
  | shortBranch hop htarget =>
    refine ⟨.inl hop, rfl, ?_⟩
    simp only [Instruction.size, isWideBranch_of_isShortBranch hop, Bool.or_false,
      Bool.false_eq_true, if_false, List.length_append, Bytes.length_word16]
    omega
  | wideBranch hop hread =>
    have htaken := takes_readTarget size pc _ _ _ hread
    refine ⟨.inr hop, rfl, ?_⟩
    simp only [Instruction.size, hop, Bool.or_true, if_true]
    omega
  | tableSwitch hop hskipped hread =>
    -- The padding, three words, and one word for each index.
    obtain ⟨default, low, high, targets, mid, behind, rfl, hdefault, rfl, htargets, hpos, hlast⟩ :=
      readTableSwitch_eq_ok hread
    have hfirst := takes_readTarget size pc _ _ _ hdefault
    have hsecond := takes_times (takes_readTarget size pc) _ _ _ _ htargets
    have hbelow := high.toInt32.toInt_lt
    refine ⟨⟨List.length_pos_iff.1 hpos, by omega⟩, hop.symm, ?_⟩
    simp only [List.length_append, Bytes.length_word32] at hfirst
    simp only [Instruction.size, List.length_append]
    omega
  | lookupSwitch hop hskipped hread =>
    -- The padding, two words, and two words for each case.
    obtain ⟨default, count, cases, mid, behind, rfl, hdefault, rfl, hcases, _⟩ :=
      readLookupSwitch_eq_ok hread
    have hfirst := takes_readTarget size pc _ _ _ hdefault
    have hsecond := takes_times (takes_readCase size pc) _ _ _ _ hcases
    refine ⟨trivial, hop.symm, ?_⟩
    simp only [List.length_append, Bytes.length_word32] at hfirst
    simp only [Instruction.size, List.length_append]
    omega
  | plain hshort hwide htable hlookup hlength htail =>
    refine ⟨isWhole_of_plainLength hshort hwide htable hlookup hlength htail rfl, rfl, ?_⟩
    simp only [Instruction.size, List.length_append, List.length_cons]
    omega

end Read

/-! ## The walk over the code

The walk ends where the bytes end. It is by recursion on the bytes that are left, as every
instruction takes some. -/

/-- Whether instructions stand one behind the other from `start` up to `stop`. -/
def Consecutive : Nat → List (Nat × Instruction) → Nat → Prop
  | start, [], stop => start = stop
  | start, (pc, i) :: rest, stop => pc = start ∧ Consecutive (start + i.size start false) rest stop

/-- Instructions that stand one behind the other start between the two ends. This needs all of them
to take up room. -/
theorem Consecutive.bounds {start stop : Nat} {body : List (Nat × Instruction)}
    (h : Consecutive start body stop) (hwf : ∀ e ∈ body, e.2.WellFormed) :
    start ≤ stop ∧ ∀ e ∈ body, start ≤ e.1 ∧ e.1 < stop := by
  induction body generalizing start with
  | nil =>
    cases h
    exact ⟨Nat.le_refl _, by simp⟩
  | cons e body ih =>
    obtain ⟨pc, i⟩ := e
    obtain ⟨rfl, hrest⟩ := h
    have hpos := (hwf (pc, i) (List.mem_cons_self ..)).size_pos pc false
    obtain ⟨hle, hbounds⟩ := ih hrest fun e he => hwf e (List.mem_cons_of_mem _ he)
    simp only at hpos
    refine ⟨by omega, fun e he => ?_⟩
    rcases List.mem_cons.1 he with rfl | he
    · exact ⟨Nat.le_refl _, by omega⟩
    · have := hbounds e he
      omega

/-- No two of them start at one offset. They come in the order of their offsets. Each instruction
takes up some room, which puts the next one behind it. -/
theorem Consecutive.pairwise {start stop : Nat} {body : List (Nat × Instruction)}
    (h : Consecutive start body stop) (hwf : ∀ e ∈ body, e.2.WellFormed) :
    (body.map (·.1)).Pairwise (· < ·) := by
  induction body generalizing start with
  | nil => exact List.Pairwise.nil
  | cons e body ih =>
    obtain ⟨pc, i⟩ := e
    obtain ⟨rfl, hrest⟩ := h
    have hpos := (hwf (pc, i) (List.mem_cons_self ..)).size_pos pc false
    have hwf' : ∀ e ∈ body, e.2.WellFormed := fun e he => hwf e (List.mem_cons_of_mem _ he)
    rw [List.map_cons, List.pairwise_cons]
    refine ⟨fun pc' hpc' => ?_, ih hrest hwf'⟩
    obtain ⟨e, he, rfl⟩ := List.mem_map.1 hpc'
    have := (hrest.bounds hwf').2 e he
    simp only at hpos ⊢
    omega

/-- What the walk gives: well-formed instructions, one behind the other, up to the end of the
bytes. -/
theorem decodeOnto_eq_ok {size pc : Nat} {bs : Bytes} {done body : List (Nat × Instruction)}
    (h : decodeOnto size done pc bs = .ok body) :
    ∃ behind, body = done.reverse ++ behind ∧ Consecutive pc behind (pc + bs.length)
      ∧ ∀ e ∈ behind, e.2.WellFormed := by
  -- On the walk itself: it is at the end, it fails at an instruction, or it goes on behind one.
  induction done, pc, bs using decodeOnto.induct size generalizing body with
  | case1 done pc =>
    unfold decodeOnto at h
    cases h
    exact ⟨[], by simp, rfl, by simp⟩
  | case2 done pc op rest e hread =>
    unfold decodeOnto at h
    simp only [hread] at h
    cases h
  | case3 done pc op rest i left hread ih =>
    unfold decodeOnto at h
    simp only [hread] at h
    obtain ⟨behind, hbody, hrow, hwf⟩ := ih h
    obtain ⟨hi, _, htaken⟩ := read_eq_ok hread
    have hpos := hi.size_pos pc false
    refine ⟨(pc, i) :: behind, by simp [hbody], ⟨rfl, ?_⟩, ?_⟩
    · -- The instruction takes as many bytes as it has, so the row ends where the bytes do.
      have hend : pc + i.size pc false + (rest.drop (i.size pc false - 1)).length
          = pc + (op :: rest).length := by
        rw [List.length_drop, List.length_cons]
        omega
      rwa [hend] at hrow
    · intro e he
      rcases List.mem_cons.1 he with rfl | he
      · exact hi
      · exact hwf e he

/-- Bytes that are read as the given instructions from `pc` on, one after the other. -/
inductive Spells (size : Nat) : Nat → Bytes → List (Nat × Instruction) → Prop where
  | nil (pc : Nat) : Spells size pc [] []
  | cons {pc : Nat} {bs rest : Bytes} {i : Instruction} {body : List (Nat × Instruction)}
      (hread : ReadsAs size pc bs i) (hlength : bs.length = i.size pc false)
      (hrest : Spells size (pc + i.size pc false) rest body) :
      Spells size pc (bs ++ rest) ((pc, i) :: body)

/-- The walk finds the instructions that bytes spell. It takes them one by one, and what has been
found before stays in front. -/
theorem Spells.decodeOnto {size pc : Nat} {bs : Bytes} {body : List (Nat × Instruction)}
    (h : Spells size pc bs body) (done : List (Nat × Instruction)) :
    decodeOnto size done pc bs = .ok (done.reverse ++ body) := by
  induction h generalizing done with
  | nil pc =>
    unfold Instruction.decodeOnto
    rw [List.append_nil]
  | @cons pc bs rest i body hread hlength _ ih =>
    obtain ⟨tail, rfl, hread⟩ := hread
    -- What the walk drops is just the rest of the instruction.
    have hdrop : (tail ++ rest).drop (i.size pc false - 1) = rest := by
      rw [← hlength, List.length_cons, Nat.add_sub_cancel, List.drop_left]
    rw [List.cons_append]
    unfold Instruction.decodeOnto
    simp only [hread rest, hdrop, ih]
    rw [List.reverse_cons, List.append_assoc]
    rfl

/-! ## Whole code arrays

Decoding is the walk with a check of targets behind it. -/

/-- Decoding checks of the walk's instructions that every target is one of their offsets. The end of
the code is not one of these. -/
theorem decode_eq_ok {code : Bytes} {body : List (Nat × Instruction)} :
    decode code = .ok body ↔ decodeOnto code.length [] 0 code = .ok body
      ∧ ∀ e ∈ body, ∀ t ∈ e.2.targets, t ∈ body.map (·.1) := by
  have hcheck (found : List (Nat × Instruction)) :
      (found.all fun e => e.2.targets.all (Std.TreeSet.ofList (found.map (·.1))).contains)
        = true ↔ ∀ e ∈ found, ∀ t ∈ e.2.targets, t ∈ found.map (·.1) := by
    simp only [List.all_eq_true, Std.TreeSet.contains_ofList, List.contains_iff_mem]
  unfold decode
  rw [bind_eq_ok]
  -- The check at the end changes nothing in the instructions that the walk gives.
  constructor
  · rintro ⟨found, hwalk, h⟩
    simp only at h
    split at h
    · next hall =>
      cases h
      exact ⟨hwalk, (hcheck body).1 hall⟩
    · cases h
  · rintro ⟨hwalk, htargets⟩
    refine ⟨body, hwalk, ?_⟩
    simp only
    rw [if_pos ((hcheck body).2 htargets)]
    rfl

section Decode

variable {code : Bytes} {body : List (Nat × Instruction)}

/-- The instructions of a code array stand one behind the other and fill it. -/
theorem consecutive_of_decode (h : decode code = .ok body) : Consecutive 0 body code.length := by
  obtain ⟨behind, hbody, hrow, _⟩ := decodeOnto_eq_ok (decode_eq_ok.1 h).1
  rw [Nat.zero_add] at hrow
  rwa [hbody]

theorem wellFormed_of_decode (h : decode code = .ok body) : ∀ e ∈ body, e.2.WellFormed := by
  obtain ⟨behind, hbody, _, hwf⟩ := decodeOnto_eq_ok (decode_eq_ok.1 h).1
  rwa [hbody]

/-- The offsets of the instructions of a code array and its end, in order. -/
theorem pairwise_labels_of_decode (h : decode code = .ok body) :
    (body.map (·.1) ++ [code.length]).Pairwise (· < ·) := by
  have hrow := consecutive_of_decode h
  have hwf := wellFormed_of_decode h
  refine List.pairwise_append.2 ⟨hrow.pairwise hwf, List.pairwise_singleton _ _, ?_⟩
  intro pc hpc last hlast
  obtain ⟨e, he, rfl⟩ := List.mem_map.1 hpc
  rw [List.mem_singleton.1 hlast]
  exact ((hrow.bounds hwf).2 e he).2

theorem mem_starts_of_decode (h : decode code = .ok body) :
    ∀ e ∈ body, ∀ t ∈ e.2.targets, t ∈ body.map (·.1) :=
  (decode_eq_ok.1 h).2

end Decode

end ClassLoom.Instruction
