import ClassLoom.Instruction.Decode
import ClassLoom.Instruction.Encode
import ClassLoom.Proofs.Computation

/-!
# Instructions read back from their written form

An instruction that is `WellFormed` is read back from what `Instruction.bytes` writes for it,
whatever stands behind it. What is read is the instruction with its targets at their new places
and with the opcode that was written, `Instruction.placed`.

* `length_bytes`: what is written is as long as `Instruction.size` says;
* `readsAs_bytes`: what is written is read back.
-/

namespace ClassLoom.Instruction

/-! ## Well-formed instructions

Instructions that are made by hand need not be ones that the format has. Well-formed ones are, and
all that are decoded or emitted are well-formed. -/

/-- Whether bytes are exactly one instruction that is no branch and no switch. -/
def IsWhole : Bytes → Prop
  | [] => False
  | op :: rest =>
    Opcode.isShortBranch op = false ∧ Opcode.isWideBranch op = false
      ∧ op ≠ Opcode.tableSwitch ∧ op ≠ Opcode.lookupSwitch
      ∧ (if op = Opcode.wide then rest.head?.bind wideLength? else fixedLength? op)
        = some (rest.length + 1)

/-- Whether an instruction is one that the format has: its bytes are one instruction, its
opcode is one of a branch, and the indices of a table switch are 32-bit numbers. -/
def WellFormed : Instruction → Prop
  | plain bytes => IsWhole bytes
  | branch op _ => Opcode.isShortBranch op = true ∨ Opcode.isWideBranch op = true
  | tableSwitch _ low targets => targets ≠ [] ∧ low.toInt + targets.length ≤ 2147483648
  | lookupSwitch _ _ => True

instance : DecidablePred IsWhole
  | [] => isFalse id
  | op :: rest => inferInstanceAs (Decidable (Opcode.isShortBranch op = false
      ∧ Opcode.isWideBranch op = false ∧ op ≠ Opcode.tableSwitch ∧ op ≠ Opcode.lookupSwitch
      ∧ (if op = Opcode.wide then rest.head?.bind wideLength? else fixedLength? op)
        = some (rest.length + 1)))

instance : DecidablePred WellFormed
  | plain bytes => inferInstanceAs (Decidable (IsWhole bytes))
  | branch op _ => inferInstanceAs
    (Decidable (Opcode.isShortBranch op = true ∨ Opcode.isWideBranch op = true))
  | tableSwitch _ low targets => inferInstanceAs
    (Decidable (targets ≠ [] ∧ low.toInt + targets.length ≤ 2147483648))
  | lookupSwitch _ _ => isTrue trivial

/-- The instruction with its targets moved by `f`; a branch that is written in its wide form
has the opcode of that form. -/
def placed (f : Nat → Nat) (wide : Bool) : Instruction → Instruction
  | plain bytes => plain bytes
  | branch op target =>
    branch (if wide && !Opcode.isWideBranch op then Opcode.widened op else op) (f target)
  | tableSwitch default low targets => tableSwitch (f default) low (targets.map f)
  | lookupSwitch default cases =>
    lookupSwitch (f default) (cases.map fun (key, target) => (key, f target))

@[simp] theorem targets_placed (f : Nat → Nat) (wide : Bool) (i : Instruction) :
    (i.placed f wide).targets = i.targets.map f := by
  cases i <;> simp [placed, targets, Function.comp_def]

theorem isWideBranch_widened (op : UInt8) : Opcode.isWideBranch (Opcode.widened op) = true := by
  unfold Opcode.widened
  split <;> decide

/-- The instruction takes up the same bytes once its targets are known. A widened branch is written
with its wide opcode, and so has its size. -/
theorem size_placed (f : Nat → Nat) (wide : Bool) (pc : Nat) (i : Instruction) :
    (i.placed f wide).size pc false = i.size pc wide := by
  cases i with
  | plain bytes => rfl
  | branch op target =>
    cases wide with
    | false => rfl
    | true =>
      cases hop : Opcode.isWideBranch op with
      | true => simp [placed, size, hop]
      | false => simp [placed, size, hop, isWideBranch_widened]
  | tableSwitch default low targets => simp [placed, size]
  | lookupSwitch default cases => simp [placed, size]

/-- Whether an instruction takes up at least one byte, wherever it stands. -/
def TakesRoom (i : Instruction) : Prop := ∀ pc wide, 0 < i.size pc wide

/-- Only an instruction of no bytes takes up none. Switches and branches always take up some. -/
theorem takesRoom_iff {i : Instruction} : i.TakesRoom ↔ i ≠ plain [] := by
  constructor
  · rintro h rfl
    exact Nat.lt_irrefl _ (h 0 false)
  · intro h pc wide
    -- Branches and switches have at least an opcode, wherever they stand.
    cases i with
    | plain bytes =>
      cases bytes with
      | nil => exact absurd rfl h
      | cons op rest => exact Nat.succ_pos _
    | branch op target =>
      show 0 < if wide || Opcode.isWideBranch op then 5 else 3
      split <;> omega
    | tableSwitch default low targets =>
      show 0 < 13 + padding pc + 4 * targets.length
      omega
    | lookupSwitch default cases =>
      show 0 < 9 + padding pc + 8 * cases.length
      omega

instance : DecidablePred TakesRoom := fun _ => decidable_of_iff' _ takesRoom_iff

theorem WellFormed.takesRoom {i : Instruction} (h : i.WellFormed) : i.TakesRoom := by
  rw [takesRoom_iff]
  rintro rfl
  exact h

/-- In particular it takes up something, so that the walk over code goes on. -/
theorem WellFormed.size_pos {i : Instruction} (h : i.WellFormed) (pc : Nat) (wide : Bool) :
    0 < i.size pc wide :=
  h.takesRoom pc wide

/-! ## Distances

Targets are written as distances, in 16 bits or in 32. Inside code that is not too long a distance
does not wrap, and leads back to its target. -/

/-- Between two offsets that are not too large the distance is their difference. -/
theorem toInt_distance {pc target : Nat} (hpc : pc < 2147483648) (htarget : target < 2147483648) :
    (distance pc target).toInt = (target : Int) - (pc : Int) := by
  unfold distance
  rw [Int32.toInt_ofInt_of_le (by omega) (by omega)]

/-- A distance that fits 16 bits is the same number there. -/
theorem toInt_toInt16_of_fitsShort {d : Int32} (h : fitsShort d.toInt = true) :
    d.toInt16.toInt = d.toInt := by
  rw [fitsShort, Bool.and_eq_true, decide_eq_true_eq, decide_eq_true_eq] at h
  rw [Int32.toInt_toInt16]
  exact Int.bmod_eq_of_le (by omega) (by omega)

/-- The distance to an offset inside the code leads there. -/
theorem targetAt_distance {size pc target : Nat} (h : target < size) :
    targetAt size pc ((target : Int) - (pc : Int)) = .ok target := by
  have hsum : (pc : Int) + ((target : Int) - (pc : Int)) = target := by omega
  unfold targetAt
  simp only [hsum]
  rw [if_neg (by simp; omega)]
  rfl

theorem word32_int32Bytes (i : Int32) (rest : Bytes) :
    Reader.word32 (int32Bytes i ++ rest) = .ok (i.toUInt32, rest) :=
  Reader.word32_append i.toUInt32 rest

theorem int32Bytes_toInt32 (w : UInt32) : int32Bytes w.toInt32 = Bytes.word32 w := by
  rw [int32Bytes, UInt32.toUInt32_toInt32]

@[simp] theorem length_int32Bytes (i : Int32) : (int32Bytes i).length = 4 := rfl

section Targets

variable {size pc : Nat}

/-- The written distance to an offset inside the code is read as that offset. -/
theorem readTarget_distance (hpc : pc < size) (hsize : size ≤ 2147483648) {target : Nat}
    (htarget : target < size) (rest : Bytes) :
    readTarget size pc (int32Bytes (distance pc target) ++ rest) = .ok (target, rest) := by
  unfold readTarget
  rw [Reader.bind_run (word32_int32Bytes _ rest)]
  refine Reader.lift_run ?_ rest
  rw [Int32.toInt32_toUInt32, toInt_distance (by omega) (by omega)]
  exact targetAt_distance htarget

/-- A written key and the distance to its target are read back. -/
theorem readCase_bytes (key : Int32) (hpc : pc < size) (hsize : size ≤ 2147483648) {target : Nat}
    (htarget : target < size) (rest : Bytes) :
    readCase size pc (int32Bytes key ++ int32Bytes (distance pc target) ++ rest)
      = .ok ((key, target), rest) := by
  unfold readCase
  rw [List.append_assoc, Reader.bind_run (word32_int32Bytes key _),
    Reader.bind_run (readTarget_distance hpc hsize htarget rest)]
  rfl

end Targets

/-! ## Reading back, kind by kind

Each lemma takes the written form apart into the opcode and the bytes behind it, since that is
how `read` is called. -/

/-- What is read from the written form of `i` at `pc`: its opcode, then the instruction itself,
whatever follows. -/
def ReadsAs (size pc : Nat) (bs : Bytes) (i : Instruction) : Prop :=
  ∃ tail, bs = i.opcode :: tail ∧ ∀ rest, read size pc i.opcode (tail ++ rest) = .ok (i, rest)

section Kinds

variable {size pc : Nat}

/-- The length that the reader finds for a whole instruction is that of its bytes. It looks at the
opcode, and behind a `wide` also at the next byte. -/
theorem plainLength_of_isWhole {op : UInt8} {tail : Bytes} (h : IsWhole (op :: tail))
    (rest : Bytes) : plainLength pc op (tail ++ rest) = .ok (tail.length + 1) := by
  obtain ⟨_, _, _, _, hlength⟩ := h
  unfold plainLength
  split at hlength
  · next hwide =>
    rw [if_pos hwide]
    cases tail with
    | nil => simp at hlength
    | cons inner tail =>
      have hinner : wideLength? inner = some ((inner :: tail).length + 1) := hlength
      simp only [List.cons_append, hinner]
  · next hnarrow =>
    rw [if_neg hnarrow]
    simp only [hlength]

/-- An instruction without targets is read back as it is, by the length of its opcode. The bytes
behind it are not looked at. -/
theorem readsAs_plain {bs : Bytes} (h : IsWhole bs) : ReadsAs size pc bs (plain bs) := by
  cases bs with
  | nil => exact absurd h (by simp [IsWhole])
  | cons op tail =>
    refine ⟨tail, rfl, fun rest => ?_⟩
    have hlength : plainLength pc op (tail ++ rest) = .ok (tail.length + 1) :=
      plainLength_of_isWhole h rest
    -- The opcode is none of those with code offsets, so the reader comes to the last of its tests.
    obtain ⟨hshort, hwide, htable, hlookup, _⟩ := h
    have hbytes : Reader.bytes (tail.length + 1 - 1) (tail ++ rest) = .ok (tail, rest) :=
      Reader.bytes_append tail rest
    show read size pc op (tail ++ rest) = _
    unfold read
    rw [hshort, hwide, if_neg (by simp), if_neg (by simp), if_neg htable, if_neg hlookup,
      Reader.bind_run (show (get : Reader Bytes) (tail ++ rest) = .ok (tail ++ rest, tail ++ rest)
        from rfl),
      Reader.bind_run (Reader.lift_run hlength _), Reader.bind_run hbytes]
    rfl

/-- A branch with a 16-bit offset is read back if the offset fits. The target lies inside the code,
which is shorter than 32 bits can tell. -/
theorem readsAs_shortBranch {op : UInt8} {target : Nat} (hop : Opcode.isShortBranch op = true)
    (hpc : pc < size) (hsize : size ≤ 2147483648) (htarget : target < size)
    (hfits : fitsShort (distance pc target).toInt = true) :
    ReadsAs size pc (op :: Bytes.word16 (distance pc target).toInt16.toUInt16)
      (branch op target) := by
  refine ⟨_, rfl, fun rest => ?_⟩
  have hdistance : targetAt size pc
      (distance pc target).toInt16.toUInt16.toInt16.toInt = .ok target := by
    rw [Int16.toInt16_toUInt16, toInt_toInt16_of_fitsShort hfits,
      toInt_distance (by omega) (by omega)]
    exact targetAt_distance htarget
  show read size pc op _ = _
  unfold read
  rw [if_pos hop, Reader.bind_run (Reader.word16_append _ rest),
    Reader.bind_run (Reader.lift_run hdistance rest)]
  rfl

theorem isShortBranch_of_isWideBranch {op : UInt8} (h : Opcode.isWideBranch op = true) :
    Opcode.isShortBranch op = false := by
  rw [Opcode.isWideBranch, Bool.or_eq_true, decide_eq_true_eq, decide_eq_true_eq] at h
  rcases h with rfl | rfl <;> decide

theorem isWideBranch_of_isShortBranch {op : UInt8} (h : Opcode.isShortBranch op = true) :
    Opcode.isWideBranch op = false := by
  cases hwide : Opcode.isWideBranch op with
  | false => rfl
  | true =>
    rw [isShortBranch_of_isWideBranch hwide] at h
    cases h

/-- A branch with a 32-bit offset is read back. -/
theorem readsAs_wideBranch {op : UInt8} {target : Nat} (hop : Opcode.isWideBranch op = true)
    (hpc : pc < size) (hsize : size ≤ 2147483648) (htarget : target < size) :
    ReadsAs size pc (op :: int32Bytes (distance pc target)) (branch op target) := by
  refine ⟨_, rfl, fun rest => ?_⟩
  show read size pc op _ = _
  unfold read
  rw [isShortBranch_of_isWideBranch hop, if_neg (by simp), if_pos hop,
    Reader.bind_run (readTarget_distance hpc hsize htarget rest)]
  rfl

/-- The last index of a table switch, computed on 32-bit numbers, does not wrap around. -/
theorem toInt_lastIndex {low : Int32} {count : Nat} (hpos : 0 < count)
    (hhigh : low.toInt + count ≤ 2147483648) :
    (low + Int32.ofNat count - 1).toInt = low.toInt + count - 1 := by
  have hlow := Int32.le_toInt low
  have hcount : (Int32.ofNat count).toInt = (count : Int).bmod (2 ^ 32) := Int32.toInt_ofNat'
  have hone : (1 : Int32).toInt = 1 := rfl
  rw [Int32.toInt_sub, Int32.toInt_add, hcount, Int.add_bmod_bmod, Int.bmod_sub_bmod, hone]
  exact Int.bmod_eq_of_le (by omega) (by omega)

/-- The padding of a switch is skipped. -/
theorem padding_run (rest : Bytes) :
    Reader.bytes (padding pc) (List.replicate (padding pc) 0 ++ rest)
      = .ok (List.replicate (padding pc) 0, rest) := by
  have h := Reader.bytes_append (List.replicate (padding pc) 0) rest
  rw [List.length_replicate] at h
  exact h

/-- A table switch is read back. Its upper bound is found again from the lower one and the number of
targets. -/
theorem readsAs_tableSwitch {default : Nat} (low : Int32) (targets : List Nat)
    (hne : targets ≠ []) (hhigh : low.toInt + targets.length ≤ 2147483648)
    (hpc : pc < size) (hsize : size ≤ 2147483648) (hdefault : default < size)
    (htargets : ∀ t ∈ targets, t < size) :
    ReadsAs size pc
      (Opcode.tableSwitch :: (List.replicate (padding pc) 0 ++ int32Bytes (distance pc default)
        ++ int32Bytes low ++ int32Bytes (low + Int32.ofNat targets.length - 1)
        ++ targets.flatMap fun t => int32Bytes (distance pc t)))
      (tableSwitch default low targets) := by
  have hpos : 0 < targets.length := List.length_pos_iff.2 hne
  have hlast := toInt_lastIndex hpos hhigh
  have hordered : ¬ low + Int32.ofNat targets.length - 1 < low := by
    rw [Int32.lt_iff_toInt_lt, hlast]
    omega
  -- The reader counts the targets again, from the last index.
  have hcount : ((low + Int32.ofNat targets.length - 1).toInt - low.toInt + 1).toNat
      = targets.length := by
    rw [hlast]
    omega
  refine ⟨_, rfl, fun rest => ?_⟩
  have htable : Reader.times targets.length (readTarget size pc)
      ((targets.flatMap fun t => int32Bytes (distance pc t)) ++ rest) = .ok (targets, rest) := by
    rw [Reader.times_run id
      (fun t ht rest => readTarget_distance hpc hsize (htargets t ht) rest) rest, List.map_id]
  show read size pc Opcode.tableSwitch _ = _
  unfold read
  rw [if_neg (by decide), if_neg (by decide), if_pos rfl]
  simp only [List.append_assoc]
  rw [Reader.bind_run (padding_run _)]
  unfold readTableSwitch
  rw [Reader.bind_run (readTarget_distance hpc hsize hdefault _),
    Reader.bind_run (word32_int32Bytes low _), Reader.bind_run (word32_int32Bytes _ _)]
  simp only [Int32.toInt32_toUInt32]
  rw [if_neg hordered, hcount, Reader.bind_run htable]
  rfl

/-- A lookup switch is read back if its number of cases is a 32-bit number. Of the padding nothing
but its length counts. -/
theorem readsAs_lookupSwitch {default : Nat} (cases : List (Int32 × Nat))
    (hcount : cases.length < 2147483648) (hpc : pc < size) (hsize : size ≤ 2147483648)
    (hdefault : default < size) (hcases : ∀ c ∈ cases, c.2 < size) :
    ReadsAs size pc
      (Opcode.lookupSwitch :: (List.replicate (padding pc) 0 ++ int32Bytes (distance pc default)
        ++ int32Bytes (Int32.ofNat cases.length)
        ++ cases.flatMap fun (key, t) => int32Bytes key ++ int32Bytes (distance pc t)))
      (lookupSwitch default cases) := by
  have hlength : (Int32.ofNat cases.length).toInt = cases.length := by
    rw [Int32.toInt_ofNat_of_lt hcount]
  -- The count is written as a signed number, and is small enough to be read as itself.
  have hnonneg : ¬ Int32.ofNat cases.length < 0 := by
    rw [Int32.lt_iff_toInt_lt, hlength, Int32.toInt_zero]
    omega
  refine ⟨_, rfl, fun rest => ?_⟩
  have htable : Reader.times cases.length (readCase size pc)
      ((cases.flatMap fun (key, t) => int32Bytes key ++ int32Bytes (distance pc t)) ++ rest)
        = .ok (cases, rest) := by
    rw [Reader.times_run id
      (fun c hc rest => readCase_bytes c.1 hpc hsize (hcases c hc) rest) rest,
      List.map_id]
  show read size pc Opcode.lookupSwitch _ = _
  unfold read
  rw [if_neg (by decide), if_neg (by decide), if_neg (by decide), if_pos rfl]
  simp only [List.append_assoc]
  rw [Reader.bind_run (padding_run _)]
  unfold readLookupSwitch
  rw [Reader.bind_run (readTarget_distance hpc hsize hdefault _),
    Reader.bind_run (word32_int32Bytes _ _)]
  simp only [Int32.toInt32_toUInt32]
  rw [if_neg hnonneg, hlength, Int.toNat_natCast, Reader.bind_run htable]
  rfl

end Kinds

/-! ## All instructions

Every instruction is written in one of these forms. What is read from it is the same instruction,
with its targets where they have been placed. -/

section Bytes

variable {place : Nat → Except ClassError Nat} {f : Nat → Nat} {pc : Nat} {wide : Bool}

/-- A branch is written in the wide form of its opcode, or in the short one if that reaches. There
is no fourth way, and where the short form does not reach, nothing is written. -/
theorem bytes_branch {op : UInt8} {target : Nat} {bs : Bytes} (hplace : place target = .ok (f target))
    (hbytes : (branch op target).bytes place pc wide = .ok bs) :
    (Opcode.isWideBranch op = true ∧ bs = op :: int32Bytes (distance pc (f target)))
      ∨ (Opcode.isWideBranch op = false ∧ wide = true
        ∧ bs = Opcode.widened op :: int32Bytes (distance pc (f target)))
      ∨ (Opcode.isWideBranch op = false ∧ wide = false
        ∧ fitsShort (distance pc (f target)).toInt = true
        ∧ bs = op :: Bytes.word16 (distance pc (f target)).toInt16.toUInt16) := by
  obtain ⟨offset, hoffset, hbytes⟩ := bind_eq_ok.1 hbytes
  rw [hplace] at hoffset
  cases hoffset
  -- The width of the offset is settled by the opcode, or else by whether it has been widened.
  cases hop : Opcode.isWideBranch op with
  | true =>
    rw [if_pos hop] at hbytes
    cases hbytes
    exact .inl ⟨rfl, rfl⟩
  | false =>
    rw [hop, if_neg (by simp)] at hbytes
    cases wide with
    | true =>
      cases hbytes
      exact .inr (.inl ⟨rfl, rfl, rfl⟩)
    | false =>
      rw [if_neg (by simp)] at hbytes
      cases hfits : fitsShort (distance pc (f target)).toInt with
      | true =>
        rw [if_pos hfits] at hbytes
        cases hbytes
        exact .inr (.inr ⟨rfl, rfl, rfl, rfl⟩)
      | false =>
        rw [hfits, if_neg (by simp)] at hbytes
        cases hbytes

/-- A branch that stays where it is and is not widened fails only where its offset is too short. -/
theorem bytes_branch_same {op : UInt8} {target : Nat} :
    (branch op target).bytes (fun target => .ok target) pc false
      = if Opcode.isWideBranch op then .ok (op :: int32Bytes (distance pc target))
        else if fitsShort (distance pc target).toInt then
          .ok (op :: Bytes.word16 (distance pc target).toInt16.toUInt16)
        else .error (.branchOverflow pc) := by
  show (if Opcode.isWideBranch op then _ else if false = true then _ else _) = _
  rfl

/-- The written form of a table switch whose targets have places. The last index is written from the
number of targets. -/
theorem bytes_tableSwitch {default : Nat} {low : Int32} {targets : List Nat}
    (hplace : ∀ t ∈ default :: targets, place t = .ok (f t)) :
    (tableSwitch default low targets).bytes place pc wide
      = .ok (Opcode.tableSwitch :: (List.replicate (padding pc) 0
        ++ int32Bytes (distance pc (f default)) ++ int32Bytes low
        ++ int32Bytes (low + Int32.ofNat targets.length - 1)
        ++ (targets.map f).flatMap fun t => int32Bytes (distance pc t))) := by
  have htargets : targets.mapM place = .ok (targets.map f) :=
    mapM_ok fun t ht => hplace t (List.mem_cons_of_mem _ ht)
  show (place default >>= fun d => targets.mapM place >>= fun ts => _) = _
  rw [hplace default (List.mem_cons_self ..), htargets]
  rfl

/-- The written form of a lookup switch whose targets have places. Each case has its key in
front. -/
theorem bytes_lookupSwitch {default : Nat} {cases : List (Int32 × Nat)}
    (hplace : ∀ t ∈ default :: cases.map (·.2), place t = .ok (f t)) :
    (lookupSwitch default cases).bytes place pc wide
      = .ok (Opcode.lookupSwitch :: (List.replicate (padding pc) 0
        ++ int32Bytes (distance pc (f default)) ++ int32Bytes (Int32.ofNat cases.length)
        ++ (cases.map fun (key, t) => (key, f t)).flatMap fun (key, t) =>
          int32Bytes key ++ int32Bytes (distance pc t))) := by
  have hcases : (cases.mapM fun (key, target) => do
      return (key, ← place target) : Except ClassError (List (Int32 × Nat)))
        = .ok (cases.map fun (key, t) => (key, f t)) := by
    refine mapM_ok fun c hc => ?_
    show (place c.2 >>= fun t => _) = _
    rw [hplace c.2 (List.mem_cons_of_mem _ (List.mem_map_of_mem hc))]
    rfl
  show (place default >>= fun d => _) = _
  rw [hplace default (List.mem_cons_self ..)]
  show (_ >>= fun cs => _) = _
  rw [hcases]
  rfl

/-- Only instructions whose targets have places are written. An instruction without targets asks for
none. -/
theorem place_of_bytes {i : Instruction} {bs : Bytes} (hbytes : i.bytes place pc wide = .ok bs) :
    ∀ t ∈ i.targets, ∃ offset, place t = .ok offset := by
  intro t ht
  -- Each kind of instruction asks for the places of its targets before it is written.
  cases i with
  | plain bytes => cases ht
  | branch op target =>
    obtain rfl := List.mem_singleton.1 ht
    obtain ⟨offset, hoffset, _⟩ := bind_eq_ok.1 hbytes
    exact ⟨offset, hoffset⟩
  | tableSwitch default low targets =>
    obtain ⟨offset, hoffset, hbytes⟩ := bind_eq_ok.1 hbytes
    obtain ⟨offsets, hoffsets, _⟩ := bind_eq_ok.1 hbytes
    rcases List.mem_cons.1 ht with rfl | ht
    · exact ⟨offset, hoffset⟩
    · exact exists_ok_of_mapM hoffsets t ht
  | lookupSwitch default cases =>
    obtain ⟨offset, hoffset, hbytes⟩ := bind_eq_ok.1 hbytes
    obtain ⟨offsets, hoffsets, _⟩ := bind_eq_ok.1 hbytes
    rcases List.mem_cons.1 ht with rfl | ht
    · exact ⟨offset, hoffset⟩
    · obtain ⟨c, hc, rfl⟩ := List.mem_map.1 ht
      obtain ⟨_, hcase⟩ := exists_ok_of_mapM hoffsets c hc
      obtain ⟨offset', hoffset', _⟩ := bind_eq_ok.1 hcase
      exact ⟨offset', hoffset'⟩

/-- A table of entries of one width is as long as they are together. -/
theorem length_flatMap_word {α : Type} (write : α → ClassLoom.Bytes) {width : Nat}
    (hwidth : ∀ a, (write a).length = width) (items : List α) :
    (items.flatMap write).length = width * items.length := by
  induction items with
  | nil => rfl
  | cons a items ih =>
    rw [List.flatMap_cons, List.length_append, hwidth, ih, List.length_cons, Nat.mul_succ,
      Nat.add_comm]

/-- What is written takes up as many bytes as the layout reserves. Otherwise all labels behind would
be wrong. -/
theorem length_bytes {i : Instruction} {bs : Bytes}
    (hbytes : i.bytes place pc wide = .ok bs) : bs.length = i.size pc wide := by
  -- Every target has a place, and which one it is does not matter.
  obtain ⟨f, hplace⟩ : ∃ f : Nat → Nat, ∀ t ∈ i.targets, place t = .ok (f t) := by
    refine ⟨fun t => (place t).toOption.getD 0, fun t ht => ?_⟩
    obtain ⟨offset, hoffset⟩ := place_of_bytes hbytes t ht
    simp only [hoffset, Except.toOption, Option.getD_some]
  cases i with
  | plain bytes =>
    cases hbytes
    rfl
  | branch op target =>
    have hcases := bytes_branch (hplace target (List.mem_cons_self ..)) hbytes
    rcases hcases with ⟨hop, rfl⟩ | ⟨hop, rfl, rfl⟩ | ⟨hop, rfl, _, rfl⟩
    · simp [size, hop]
    · simp [size]
    · simp [size, hop]
  | tableSwitch default low targets =>
    rw [bytes_tableSwitch hplace] at hbytes
    cases hbytes
    have htable := length_flatMap_word (fun t => int32Bytes (distance pc t))
      (fun _ => length_int32Bytes _) (targets.map f)
    rw [List.length_map] at htable
    simp only [size, List.length_cons, List.length_append, List.length_replicate,
      length_int32Bytes, htable]
    omega
  | lookupSwitch default cases =>
    rw [bytes_lookupSwitch hplace] at hbytes
    cases hbytes
    have htable := length_flatMap_word
      (fun c : Int32 × Nat => int32Bytes c.1 ++ int32Bytes (distance pc c.2))
      (fun _ => show _ = 8 from rfl) (cases.map fun (key, t) => (key, f t))
    rw [List.length_map] at htable
    simp only [size, List.length_cons, List.length_append, List.length_replicate,
      length_int32Bytes, htable]
    omega

/-- **Written instructions read back.** What is read is the instruction with its targets at their
places. The code may be as long as 32-bit distances reach. -/
theorem readsAs_bytes {size : Nat} {i : Instruction} {bs : Bytes} (hwf : i.WellFormed)
    (hplace : ∀ t ∈ i.targets, place t = .ok (f t)) (hin : ∀ t ∈ i.targets, f t < size)
    (hbytes : i.bytes place pc wide = .ok bs) (hend : pc + i.size pc wide ≤ size)
    (hsize : size ≤ 2147483648) : ReadsAs size pc bs (i.placed f wide) := by
  have hpc : pc < size := by
    have := hwf.size_pos pc wide
    omega
  cases i with
  | plain bytes =>
    cases hbytes
    exact readsAs_plain hwf
  | branch op target =>
    have hself : target ∈ (branch op target).targets := List.mem_cons_self ..
    have htarget := hin target hself
    rcases bytes_branch (hplace target hself) hbytes with
      ⟨hop, rfl⟩ | ⟨hop, rfl, rfl⟩ | ⟨hop, rfl, hfits, rfl⟩
    · have hplaced : (branch op target).placed f wide = branch op (f target) := by
        simp [placed, hop]
      rw [hplaced]
      exact readsAs_wideBranch hop hpc hsize htarget
    · have hplaced : (branch op target).placed f true = branch (Opcode.widened op) (f target) := by
        simp [placed, hop]
      rw [hplaced]
      exact readsAs_wideBranch (isWideBranch_widened op) hpc hsize htarget
    · have hshort : Opcode.isShortBranch op = true := by
        rcases hwf with hshort | hwide
        · exact hshort
        · rw [hop] at hwide
          cases hwide
      exact readsAs_shortBranch hshort hpc hsize htarget hfits
  | tableSwitch default low targets =>
    obtain ⟨hne, hhigh⟩ := hwf
    rw [bytes_tableSwitch hplace] at hbytes
    cases hbytes
    have hread := readsAs_tableSwitch low (targets.map f)
      (by simpa using hne) (by simpa using hhigh) hpc hsize
      (hin default (List.mem_cons_self ..))
      (by
        intro t ht
        obtain ⟨t', ht', rfl⟩ := List.mem_map.1 ht
        exact hin t' (List.mem_cons_of_mem _ ht'))
    rw [List.length_map] at hread
    exact hread
  | lookupSwitch default cases =>
    rw [bytes_lookupSwitch hplace] at hbytes
    cases hbytes
    -- The cases themselves take up the code, so there are not too many for a 32-bit count.
    have hcount : cases.length < 2147483648 := by
      simp only [Instruction.size] at hend
      omega
    have hread := readsAs_lookupSwitch (cases.map fun (key, t) => (key, f t))
      (by simpa using hcount) hpc hsize (hin default (List.mem_cons_self ..))
      (by
        intro c hc
        obtain ⟨c', hc', rfl⟩ := List.mem_map.1 hc
        exact hin c'.2 (List.mem_cons_of_mem _ (List.mem_map_of_mem hc')))
    rw [List.length_map] at hread
    exact hread

end Bytes

end ClassLoom.Instruction
