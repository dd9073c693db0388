import ClassLoom.Proofs.Listing.Positions

/-!
# Listings that have been relaxed

Relaxing goes over a listing in rounds, each with the offsets that the one before it left, up to
one that fails or changes nothing (`Rounds`). A round that changes something widens a `goto` or
`jsr` for good, however the padding of switches moves the lines behind it. The last round judges
all branches by the offsets that they are left with.

* `rounds_relax`: how many rounds there are;
* `widen_of_relax`: what has been relaxed is left as it is by another round;
* `bytes_ne_branchOverflow`: then no branch is too long to be written.
-/

namespace ClassLoom

/-- Whether an instruction is a `goto` or a `jsr` with a 16-bit offset. -/
def Instruction.isShortJump : Instruction → Bool
  | branch op _ => Opcode.isWidenable op
  | _ => false

/-- A distance that fits 16 bits is the same number as a 32-bit word, so nothing is lost by counting
modulo 2 ^ 32. -/
theorem Instruction.toInt_distance_of_fitsShort {pc target : Nat}
    (h : fitsShort ((target : Int) - (pc : Int)) = true) :
    (distance pc target).toInt = (target : Int) - (pc : Int) := by
  rw [fitsShort, Bool.and_eq_true, decide_eq_true_eq, decide_eq_true_eq] at h
  unfold distance
  rw [Int32.toInt_ofInt_of_le (by omega) (by omega)]

/-- A label without a place is not an overflow. -/
theorem Layout.place_ne_branchOverflow {layout : Layout} {pc pos : Nat} :
    layout.place pc ≠ .error (.branchOverflow pos) := by
  intro h
  unfold place at h
  split at h
  · cases h
  · cases h

namespace Listing

variable {listing relaxed front back : Listing} {place : Nat → Except ClassError Nat}
  {done : Listing} {pos pc k : Nat} {line : Line}

/-! ## Rounds

A round goes over the lines once, and widens what does not reach its target where the layout has it
now. As widening moves what is behind, there may be more to widen in the next round. -/

/-- Rounds of relaxing, up to one that fails or changes nothing, with what they come to. -/
inductive Rounds : Nat → Listing → Except ClassError Listing → Prop where
  | failed {listing : Listing} {e : ClassError} (h : widen listing = .error e) :
    Rounds 1 listing (.error e)
  | settled {listing : Listing} (h : widen listing = .ok listing) : Rounds 1 listing (.ok listing)
  | again {listing widened : Listing} {outcome : Except ClassError Listing} {rounds : Nat}
    (h : widen listing = .ok widened) (hchanged : widened ≠ listing)
    (hrest : Rounds rounds widened outcome) : Rounds (rounds + 1) listing outcome

/-- How many instructions of a listing are short jumps that are not widened. -/
def shortJumps (listing : Listing) : Nat :=
  listing.forms.countP fun form => form.1.isShortJump && !form.2

theorem shortJumps_le_length (listing : Listing) : listing.shortJumps ≤ listing.length :=
  Nat.le_trans List.countP_le_length (List.length_filterMap_le ..)

/-- Widening takes short jumps away, unless it leaves everything as it is. This is the measure by
which relaxing ends. -/
theorem Widened.shortJumps_lt (h : Widened listing relaxed) :
    relaxed = listing ∨ relaxed.shortJumps < listing.shortJumps := by
  induction h with
  | nil => exact .inl rfl
  | @cons line line' rest rest' hline _ ih =>
    cases hline with
    | same =>
      refine ih.imp (congrArg (line :: ·)) fun hlt => ?_
      cases line with
      | label pc => exact hlt
      | code i wide =>
        unfold shortJumps at *
        rw [forms_code, forms_code, List.countP_cons, List.countP_cons]
        omega
    -- One short jump fewer here, and no more of them in the rest.
    | wide op target hop =>
      refine .inr ?_
      have hle : shortJumps rest' ≤ shortJumps rest := by
        rcases ih with rfl | hlt
        · exact Nat.le_refl _
        · exact Nat.le_of_lt hlt
      unfold shortJumps at *
      rw [forms_code, forms_code, List.countP_cons_of_neg (by simp),
        List.countP_cons_of_pos (by simpa [Instruction.isShortJump] using hop)]
      omega

/-- Every round but the last takes a short jump away, so relaxing is never cut short. The bound on
the rounds is the number of lines and one, and there are no more short jumps than lines. -/
theorem rounds_relaxFor {limit : Nat} (h : listing.shortJumps < limit) :
    ∃ rounds ≤ listing.shortJumps + 1, Rounds rounds listing (relaxFor limit listing) := by
  induction limit generalizing listing with
  | zero => cases h
  | succ limit ih =>
    unfold relaxFor
    cases hwiden : widen listing with
    | error e => exact ⟨1, Nat.le_add_left .., .failed hwiden⟩
    | ok widened =>
      show ∃ rounds ≤ _, Rounds rounds listing (if widened = listing then _ else _)
      split
      · next hsame =>
        subst hsame
        exact ⟨1, Nat.le_add_left .., .settled hwiden⟩
      · next hchanged =>
        -- Something was widened, so fewer short jumps are left for the rounds behind this one.
        have hlt := (widened_of_widen hwiden).shortJumps_lt.resolve_left hchanged
        have hlimit : shortJumps widened < limit := by omega
        obtain ⟨rounds, hle, hrounds⟩ := ih hlimit
        exact ⟨rounds + 1, by omega, .again hwiden hchanged hrounds⟩

/-- **Relaxing comes to an end** after one more round than there are short jumps, at the latest. -/
theorem rounds_relax (listing : Listing) :
    ∃ rounds ≤ listing.shortJumps + 1, Rounds rounds listing listing.relax :=
  rounds_relaxFor (Nat.lt_succ_of_le (shortJumps_le_length listing))

/-! ## The last round

What a round leaves as it is needs no widening, and so can be written. -/

/-- The last round, if it did not fail, changed nothing. -/
theorem Rounds.widen_eq {rounds : Nat} (h : Rounds rounds listing (.ok relaxed)) :
    widen relaxed = .ok relaxed := by
  generalize houtcome : Except.ok relaxed = outcome at h
  induction h with
  | failed h => cases houtcome
  | settled h =>
    cases houtcome
    exact h
  | again _ _ _ ih => exact ih houtcome

/-- **What has been relaxed** is left as it is by another round. -/
theorem widen_of_relax (h : listing.relax = .ok relaxed) : widen relaxed = .ok relaxed := by
  obtain ⟨rounds, -, hrounds⟩ := rounds_relax listing
  rw [h] at hrounds
  exact hrounds.widen_eq

/-- A round that leaves all lines as they are leaves each of them as it is. The place of every line
is the one that the layout before the round gives it. -/
theorem widenLine_of_widenOnto
    (h : widenOnto place done pos (front ++ line :: back)
      = .ok (done.reverse ++ (front ++ line :: back))) :
    widenLine place (stop pos front) line = .ok line := by
  induction front generalizing done pos with
  | nil =>
    obtain ⟨line', hline, h⟩ := bind_eq_ok.1 h
    -- The line that comes out here is the one that went in.
    obtain ⟨behind, hsame, -⟩ := widened_of_widenOnto h
    rw [List.reverse_cons, List.append_assoc, List.append_cancel_left_eq] at hsame
    cases hsame
    exact hline
  | cons head front ih =>
    obtain ⟨head', -, h⟩ := bind_eq_ok.1 h
    obtain ⟨behind, hsame, -⟩ := widened_of_widenOnto h
    rw [List.reverse_cons, List.append_assoc, List.append_cancel_left_eq] at hsame
    cases hsame
    have hrest : widenOnto place (head :: done) (pos + head.size pos) (front ++ line :: back)
        = .ok ((head :: done).reverse ++ (front ++ line :: back)) := by
      rw [List.reverse_cons, List.append_assoc]
      exact h
    exact ih hrest

/-- A short branch that is left as it is reaches its target. One that does not reach it is widened,
or is refused. -/
theorem reaches_of_widenLine {op : UInt8} {target : Nat} (hop : Opcode.isWideBranch op = false)
    (h : widenLine place pos (.code (.branch op target) false)
      = .ok (.code (.branch op target) false)) :
    ∃ offset, place target = .ok offset
      ∧ Instruction.fitsShort ((offset : Int) - (pos : Int)) = true := by
  unfold widenLine at h
  dsimp only at h
  rw [hop, if_neg Bool.false_ne_true] at h
  obtain ⟨offset, hoffset, h⟩ := bind_eq_ok.1 h
  refine ⟨offset, hoffset, ?_⟩
  split at h
  · assumption
  · split at h <;> cases h

/-- Every short branch of what has been relaxed reaches its target. -/
theorem reaches_of_widen {op : UInt8} {target : Nat}
    (h : widen (front ++ .code (.branch op target) false :: back)
      = .ok (front ++ .code (.branch op target) false :: back))
    (hop : Opcode.isWideBranch op = false) :
    ∃ offset, (layout (front ++ .code (.branch op target) false :: back)).place target = .ok offset
      ∧ Instruction.fitsShort ((offset : Int) - (stop 0 front : Int)) = true := by
  have hlines : widenOnto _ [] 0 (front ++ .code (.branch op target) false :: back)
      = .ok (List.reverse [] ++ (front ++ .code (.branch op target) false :: back)) := h
  exact reaches_of_widenLine hop (widenLine_of_widenOnto hlines)

/-- **No branch of what has been relaxed is too long to be written.** The last round has looked at
every branch, in the layout by which it is written. -/
theorem bytes_ne_branchOverflow (h : widen relaxed = .ok relaxed) :
    relaxed.bytes ≠ .error (.branchOverflow pc) := by
  intro hbytes
  unfold bytes at hbytes
  dsimp only at hbytes
  split at hbytes
  · cases hbytes
  · obtain ⟨front, i, wide, back, rfl, hfails⟩ := error_of_bytesOnto hbytes
    -- What cannot be written is a label without a place, or a short branch, and all those reach.
    rcases Instruction.error_of_bytes hfails with
      ⟨_, _, hplace⟩ | ⟨op, target, offset, rfl, rfl, hop, hplace, hlong, _⟩
    · exact Layout.place_ne_branchOverflow hplace
    · obtain ⟨offset', hplace', hfits⟩ := reaches_of_widen h hop
      obtain rfl := Except.ok.inj (hplace.symm.trans hplace')
      rw [Instruction.toInt_distance_of_fitsShort hfits, hfits] at hlong
      cases hlong

end Listing
end ClassLoom
