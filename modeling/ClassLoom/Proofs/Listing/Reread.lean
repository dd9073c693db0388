import ClassLoom.Proofs.Instruction.Assembled
import ClassLoom.Proofs.Instruction.Reassembled

/-!
# Code of a listing, read again

A label at the end of a listing is the offset of no instruction, so code that branches there does
not decode. All other code of a listing does, and then decoding gives the placed instructions:
how long the code is decides only whether a branch is accepted, never where it goes.

* `Reader.Extends`, `Instruction.decodeOnto_mono`: what is read in code is read in longer code;
* `placed_of_decode`: what the code of a listing decodes to, if it does;
* `assemble_placed`: what was decoded is assembled to the same code;
* `mem_boundaries_of_place`: labels lie where instructions start, or at the end.
-/

namespace ClassLoom

/-! ## Readers that accept more

Whether a branch is accepted depends on the size of the code in which it leads somewhere. So the
same bytes at the beginning of longer code are read the same: a reader for the longer code `Extends`
that for the shorter one. -/

namespace Reader

variable {α β : Type}

/-- Whether a reader gives what another one does, wherever that one gives anything. -/
def Extends (p q : Reader α) : Prop := ∀ bs r, p bs = .ok r → q bs = .ok r

theorem Extends.refl (p : Reader α) : p.Extends p := fun _ _ h => h

/-- A reader behind another accepts more if both do. -/
theorem Extends.bind {p q : Reader α} {f g : α → Reader β} (hp : p.Extends q)
    (hf : ∀ a, (f a).Extends (g a)) : (p >>= f).Extends (q >>= g) := by
  rintro bs ⟨b, rest⟩ h
  obtain ⟨a, mid, ha, hb⟩ := bind_eq_ok.1 h
  exact bind_eq_ok.2 ⟨a, mid, hp _ _ ha, hf a _ _ hb⟩

theorem Extends.behind (p : Reader α) {f g : α → Reader β} (hf : ∀ a, (f a).Extends (g a)) :
    (p >>= f).Extends (p >>= g) :=
  (refl p).bind hf

/-- A check that lets more pass. -/
theorem Extends.lift {x y : Except ClassError α} (h : ∀ a, x = .ok a → y = .ok a) :
    Extends (liftM x : Reader α) (liftM y : Reader α) := by
  rintro bs ⟨a, rest⟩ hx
  obtain ⟨ha, rfl⟩ := lift_eq_ok.1 hx
  exact lift_eq_ok.2 ⟨h a ha, rfl⟩

/-- A choice that does not depend on the size. -/
theorem Extends.ite {c : Prop} [Decidable c] {p q p' q' : Reader α} (hp : p.Extends p')
    (hq : q.Extends q') : Extends (if c then p else q) (if c then p' else q') := by
  split
  · exact hp
  · exact hq

/-- So many items accept more if one does. -/
theorem Extends.times {p q : Reader α} (h : p.Extends q) (n : Nat) :
    Extends (times n p) (times n q) := by
  rintro bs ⟨items, rest⟩ hitems
  induction n generalizing bs items with
  | zero => exact hitems
  | succ n ih =>
    obtain ⟨a, mid, more, ha, hmore, rfl⟩ := times_succ_eq_ok.1 hitems
    exact times_succ_eq_ok.2 ⟨a, mid, more, h _ _ ha, ih _ _ hmore, rfl⟩

end Reader

namespace Instruction

open Reader (Extends)

section Longer

variable {size size' : Nat} (hle : size ≤ size')
include hle

theorem targetAt_mono {pc target : Nat} {d : Int} (h : targetAt size pc d = .ok target) :
    targetAt size' pc d = .ok target := by
  obtain ⟨htarget, hlt⟩ := targetAt_eq_ok.1 h
  exact targetAt_eq_ok.2 ⟨htarget, Nat.lt_of_lt_of_le hlt hle⟩

theorem extends_readTarget (pc : Nat) : (readTarget size pc).Extends (readTarget size' pc) :=
  .behind _ fun _ => .lift fun _ => targetAt_mono hle

theorem extends_readCase (pc : Nat) : (readCase size pc).Extends (readCase size' pc) :=
  .behind _ fun _ => (extends_readTarget hle pc).bind fun _ => .refl _

/-- A table switch accepts more: it has a default and as many targets as its bounds say. -/
theorem extends_readTableSwitch (pc : Nat) :
    (readTableSwitch size pc).Extends (readTableSwitch size' pc) :=
  (extends_readTarget hle pc).bind fun _ => .behind _ fun _ => .behind _ fun _ =>
    .ite (.refl _) (((extends_readTarget hle pc).times _).bind fun _ => .refl _)

/-- A lookup switch accepts more: it has a default and a number of cases. -/
theorem extends_readLookupSwitch (pc : Nat) :
    (readLookupSwitch size pc).Extends (readLookupSwitch size' pc) :=
  (extends_readTarget hle pc).bind fun _ => .behind _ fun _ =>
    .ite (.refl _) (((extends_readCase hle pc).times _).bind fun _ => .refl _)

/-- An instruction is read in longer code as it is in shorter code. -/
theorem extends_read (pc : Nat) (op : UInt8) : (read size pc op).Extends (read size' pc op) := by
  unfold read
  refine .ite (.behind _ fun _ => .bind (.lift fun _ => targetAt_mono hle) fun _ => .refl _) ?_
  refine .ite ((extends_readTarget hle pc).bind fun _ => .refl _) ?_
  refine .ite (.behind _ fun _ => extends_readTableSwitch hle pc) ?_
  exact .ite (.behind _ fun _ => extends_readLookupSwitch hle pc) (.refl _)

/-- **The walk over code goes the same way** where the code is longer. Its length only bounds the
targets, and those are still inside. -/
theorem decodeOnto_mono {done body : List (Nat × Instruction)} {pc : Nat} {bs : Bytes}
    (h : decodeOnto size done pc bs = .ok body) : decodeOnto size' done pc bs = .ok body := by
  induction done, pc, bs using decodeOnto.induct size with
  | case1 done pc =>
    unfold decodeOnto at h ⊢
    exact h
  | case2 done pc op rest e hread =>
    unfold decodeOnto at h
    simp only [hread] at h
    cases h
  | case3 done pc op rest i left hread ih =>
    unfold decodeOnto at h ⊢
    simp only [hread, extends_read hle pc op rest _ hread] at h ⊢
    exact ih h

end Longer

/-! ## Placed instructions, written again

An instruction whose targets are offsets of the listing, and the one whose targets are the new
offsets, are written alike. The first is what the listing has, and the second what decoding
gives. -/

/-- A placed instruction is written as the line that it comes from. One that has been widened is a
wide branch of its own, so it is written with no widening. -/
theorem bytes_placed {place : Nat → Except ClassError Nat} {f : Nat → Nat} {i : Instruction}
    (hplace : ∀ t ∈ i.targets, place t = .ok (f t)) (pc : Nat) (wide : Bool) :
    (i.placed f wide).bytes (fun target => .ok target) pc false = i.bytes place pc wide := by
  cases i with
  | plain bytes => rfl
  -- A branch is widened, wide by its opcode, or short.
  | branch op target =>
    have htarget : (branch op target).bytes place pc wide
        = if Opcode.isWideBranch op then .ok (op :: int32Bytes (distance pc (f target)))
          else if wide then .ok (Opcode.widened op :: int32Bytes (distance pc (f target)))
          else if fitsShort (distance pc (f target)).toInt then
            .ok (op :: Bytes.word16 (distance pc (f target)).toInt16.toUInt16)
          else .error (.branchOverflow pc) := by
      show (place target >>= fun offset => _) = _
      rw [hplace target (List.mem_cons_self ..)]
      rfl
    rw [htarget]
    unfold placed
    rw [bytes_branch_same]
    cases hop : Opcode.isWideBranch op with
    | true => simp [hop]
    | false => cases wide <;> simp [hop, isWideBranch_widened]
  -- A switch is padded by where it stands, which is the same for both.
  | tableSwitch default low targets =>
    refine (bytes_tableSwitch (f := id) fun _ _ => rfl).trans ?_
    rw [bytes_tableSwitch hplace, List.map_id, List.length_map]
    rfl
  | lookupSwitch default cases =>
    refine (bytes_lookupSwitch (f := id) fun _ _ => rfl).trans ?_
    rw [bytes_lookupSwitch hplace, List.length_map]
    simp only [id, List.map_id']

end Instruction

namespace Listing

open Instruction (Spells)

variable {listing : Listing} {code : Bytes}

/-- Lines are written as their placed instructions are assembled. Labels are passed over, and
targets are looked up in the layout beforehand. -/
theorem bytesOnto_eq_assembleOnto {place : Nat → Except ClassError Nat} {f : Nat → Nat}
    (hplace : ∀ i wide, Line.code i wide ∈ listing → ∀ t ∈ i.targets, place t = .ok (f t))
    (done : List Bytes) (pos : Nat) : bytesOnto place done pos listing
      = Instruction.assembleOnto done pos ((placed f pos listing).map (·.2)) := by
  induction listing generalizing done pos with
  | nil => rfl
  | cons line rest ih =>
    have hrest := ih fun i wide hmem => hplace i wide (List.mem_cons_of_mem _ hmem)
    cases line with
    | label pc => exact hrest done pos
    | code i wide =>
      show (i.bytes place pos wide >>= fun bs => _)
        = ((i.placed f wide).bytes (fun target => .ok target) pos false >>= fun bs => _)
      rw [Instruction.bytes_placed (hplace i wide (List.mem_cons_self ..)),
        Instruction.size_placed]
      simp only [hrest]

/-- Code is what its lines are written as, within the limit of the format. The limit is one on the
length of the whole code. -/
theorem bytes_eq_ok : listing.bytes = .ok code
    ↔ stop 0 listing ≤ 65535 ∧ bytesOnto listing.layout.place [] 0 listing = .ok code := by
  unfold bytes
  simp only [size_layout]
  by_cases hlimit : stop 0 listing > 65535
  · rw [if_pos hlimit]
    constructor
    · intro h
      cases h
    · rintro ⟨hle, _⟩
      omega
  · rw [if_neg hlimit, and_iff_right (Nat.le_of_not_lt hlimit)]

/-- Code is written where all targets have places. -/
theorem place_of_bytes (h : listing.bytes = .ok code) :
    ∀ i wide, Line.code i wide ∈ listing → ∀ t ∈ i.targets,
      listing.layout.place t = .ok (listing.offsetOf t) := by
  intro i wide hmem t ht
  obtain ⟨offset, hoffset⟩ := place_of_bytesOnto (bytes_eq_ok.1 h).2 i wide hmem t ht
  rw [hoffset, offsetOf_of_place hoffset]

/-- **The code of a listing is assembled from its placed instructions.** -/
theorem assemble_placed (h : listing.bytes = .ok code) :
    Instruction.assemble ((placed listing.offsetOf 0 listing).map (·.2)) = .ok code := by
  unfold Instruction.assemble
  rw [← bytesOnto_eq_assembleOnto (place_of_bytes h)]
  exact (bytes_eq_ok.1 h).2

/-! ## Labels

A label stands between two instructions, or at an end. So its place is where an instruction starts,
or where the code ends, and a branch to it goes to an instruction. -/

/-- The labels of a listing are those in its lines. -/
theorem mem_labels {pc : Nat} : pc ∈ listing.labels ↔ Line.label pc ∈ listing := by
  unfold labels
  rw [List.mem_filterMap]
  constructor
  · rintro ⟨line, hmem, hline⟩
    cases line with
    | label pc' =>
      cases hline
      exact hmem
    | code i wide => cases hline
  · exact fun hmem => ⟨_, hmem, rfl⟩

/-- A label lies where the lines in front of its last occurrence stop. -/
theorem exists_split_place {pc : Nat} (h : pc ∈ listing.labels) :
    ∃ front back, listing = front ++ .label pc :: back
      ∧ listing.layout.place pc = .ok (stop 0 front) := by
  have hmem := List.mem_reverse.2 (mem_labels.1 h)
  obtain ⟨behind, before, hsplit, hlast⟩ := List.eq_append_cons_of_mem hmem
  have hlisting : listing = before.reverse ++ .label pc :: behind.reverse := by
    rw [← List.reverse_reverse listing, hsplit]
    simp
  refine ⟨_, _, hlisting, ?_⟩
  rw [hlisting]
  exact place_of_split fun hpc => hlast (List.mem_reverse.1 (mem_labels.1 hpc))

/-- Conversely, what has a place is a label, somewhere in the lines. -/
theorem split_of_place {pc offset : Nat} (h : listing.layout.place pc = .ok offset) :
    ∃ front back, listing = front ++ .label pc :: back ∧ offset = stop 0 front := by
  obtain ⟨front, back, hlisting, hplace⟩ := exists_split_place (mem_labels_of_place h)
  exact ⟨front, back, hlisting, Except.ok.inj (h.symm.trans hplace)⟩

/-- Between two lines an instruction starts, unless there are none any more. Other labels may come
first, but they take up nothing. -/
theorem stop_mem_boundaries (f : Nat → Nat) (pos : Nat) (front back : Listing) :
    stop pos front ∈ (placed f pos (front ++ back)).map (·.1) ++ [stop pos (front ++ back)] := by
  induction back generalizing front with
  | nil => simp
  | cons line back ih =>
    cases line with
    | label pc =>
      have hsame := ih (front ++ [.label pc])
      rwa [List.append_assoc, stop_append pos front [.label pc]] at hsame
    | code i wide =>
      refine List.mem_append_left _ ?_
      rw [placed_append, List.map_append]
      exact List.mem_append_right _ (List.mem_cons_self ..)

/-- **Labels lie at boundaries**: where instructions start, or at the end. -/
theorem mem_boundaries_of_place {pc offset : Nat} (h : listing.layout.place pc = .ok offset)
    (f : Nat → Nat) : offset ∈ (placed f 0 listing).map (·.1) ++ [stop 0 listing] := by
  obtain ⟨front, back, rfl, rfl⟩ := split_of_place h
  exact stop_mem_boundaries f 0 front _

/-- No label lies behind the end. -/
theorem offsetOf_le_stop {pc offset : Nat} (h : listing.layout.place pc = .ok offset) :
    listing.offsetOf pc ≤ stop 0 listing := by
  obtain ⟨front, back, hlisting, hoffset⟩ := split_of_place h
  rw [offsetOf_of_place h, hoffset, hlisting, stop_append]
  exact le_stop _ _

/-! ## Decoding

Together: what is decoded from the code of a listing are its instructions, at their offsets. -/

/-- **What the code of a listing decodes to**, if it decodes: its instructions at their offsets,
with all targets at the offsets of their labels. -/
theorem placed_of_decode {body : List (Nat × Instruction)} (h : listing.bytes = .ok code)
    (hwf : ∀ i wide, Line.code i wide ∈ listing → i.WellFormed)
    (hdecode : Instruction.decode code = .ok body) :
    body = placed listing.offsetOf 0 listing ∧ code.length = stop 0 listing := by
  obtain ⟨hlimit, hbytes⟩ := bytes_eq_ok.1 h
  -- With one more byte of room, also branches to the end are read back.
  have hin : ∀ i wide, Line.code i wide ∈ listing → ∀ t ∈ i.targets,
      listing.offsetOf t < stop 0 listing + 1 := fun i wide hmem t ht =>
    Nat.lt_succ_of_le (offsetOf_le_stop (place_of_bytes h i wide hmem t ht))
  obtain ⟨bs, hcode, hlength, hspells⟩ :=
    spells_of_bytesOnto hbytes hwf (place_of_bytes h) hin (Nat.le_succ _) (by omega)
  rw [List.reverse_nil, List.flatten_nil, List.nil_append] at hcode
  subst hcode
  rw [Nat.zero_add] at hlength
  refine ⟨?_, hlength⟩
  have hwalk := Instruction.decodeOnto_mono (Nat.le_succ _) (Instruction.decode_eq_ok.1 hdecode).1
  rw [Nat.succ_eq_add_one, hlength] at hwalk
  exact Except.ok.inj (hwalk.symm.trans (hspells.decodeOnto []))

end Listing
end ClassLoom
