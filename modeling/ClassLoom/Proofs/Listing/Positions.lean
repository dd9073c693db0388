import ClassLoom.Proofs.Listing.Reread

/-!
# Instructions by their numbers

The instructions of a listing in a row, the number of the one that a label stands for, and the
offsets that they begin at (`forms`, `index?`, `positions`).

* `exists_place_of_index?`: a label lies where its instruction begins;
* `written_at_of_bytes`: the written form of an instruction stands in the code where it begins;
* `error_of_bytesOnto`: where the code cannot be written.
-/

namespace ClassLoom.Listing

variable {listing front back : Listing} {i : Instruction} {wide : Bool} {pos pc k : Nat}

/-! ## Numbers

The lines of a listing mix instructions with labels. To say what a listing means, the instructions
are taken by their numbers, and a label by the number of the instruction behind it. -/

/-- The instructions of a listing, each with whether it is widened. -/
def forms (listing : Listing) : List (Instruction × Bool) :=
  listing.filterMap fun
    | .label _ => none
    | .code i wide => some (i, wide)

/-- The number of instructions in front of the last label of an old offset. -/
def index? (pc : Nat) : Listing → Option Nat
  | [] => none
  | .label pc' :: rest => (index? pc rest).or (if pc' = pc then some 0 else none)
  | .code _ _ :: rest => (index? pc rest).map (· + 1)

/-- The offsets of the instructions of lines that begin at `pos`, and the offset behind them. -/
def positionsFrom : Nat → Listing → List Nat
  | pos, [] => [pos]
  | pos, .label _ :: rest => positionsFrom pos rest
  | pos, .code i wide :: rest => pos :: positionsFrom (pos + i.size pos wide) rest

/-- The offsets that the instructions of a listing begin at, and its length in all. -/
def positions (listing : Listing) : List Nat := positionsFrom 0 listing

@[simp] theorem forms_nil : forms [] = [] := rfl

@[simp] theorem forms_label (rest : Listing) : forms (.label pc :: rest) = rest.forms := rfl

@[simp] theorem forms_code (rest : Listing) :
    forms (.code i wide :: rest) = (i, wide) :: rest.forms := rfl

/-- Without the widening, these are the instructions of the listing. -/
theorem instructions_eq_map_forms (listing : Listing) :
    listing.instructions = listing.forms.map (·.1) := by
  induction listing with
  | nil => rfl
  | cons line rest ih =>
    cases line with
    | label pc => exact ih
    | code i wide => exact congrArg (i :: ·) ih

/-- An instruction by its number is one of the lines, with so many in front of it. Labels between
them are not counted. -/
theorem exists_split_of_forms (h : listing.forms[k]? = some (i, wide)) :
    ∃ front back : Listing, listing = front ++ .code i wide :: back
      ∧ front.forms.length = k := by
  induction listing generalizing k with
  | nil => cases h
  | cons line rest ih =>
    -- A label is one more line in front; an instruction is the one, or counts.
    cases line with
    | label pc =>
      obtain ⟨front, back, rfl, hk⟩ := ih h
      exact ⟨.label pc :: front, back, rfl, hk⟩
    | code j wide' =>
      cases k with
      | zero =>
        cases h
        exact ⟨[], rest, rfl, rfl⟩
      | succ k =>
        obtain ⟨front, back, rfl, hk⟩ := ih h
        exact ⟨.code j wide' :: front, back, rfl, congrArg (· + 1) hk⟩

theorem forms_append (front back : Listing) : forms (front ++ back) = front.forms ++ back.forms :=
  List.filterMap_append ..

/-! ## Offsets

An instruction of a number has an offset, which is a running sum, and the one behind the last has
the length of the code. -/

/-- The first instruction begins where the lines do. -/
theorem getElem?_zero_positionsFrom (pos : Nat) (listing : Listing) :
    (positionsFrom pos listing)[0]? = some pos := by
  induction listing with
  | nil => rfl
  | cons line rest ih =>
    cases line with
    | label pc => exact ih
    | code i wide => rfl

/-- There is one more offset than there are instructions. -/
theorem length_positionsFrom (pos : Nat) (listing : Listing) :
    (positionsFrom pos listing).length = listing.forms.length + 1 := by
  induction listing generalizing pos with
  | nil => rfl
  | cons line rest ih =>
    cases line with
    | label pc => exact ih pos
    | code i wide => exact congrArg (· + 1) (ih _)

/-- What comes behind some lines begins where they stop. -/
theorem getElem?_positionsFrom (pos : Nat) (front back : Listing) :
    (positionsFrom pos (front ++ back))[front.forms.length]? = some (stop pos front) := by
  induction front generalizing pos with
  | nil => exact getElem?_zero_positionsFrom pos back
  | cons line front ih =>
    cases line with
    | label pc => exact ih pos
    | code i wide => exact ih _

/-- An instruction begins where the one in front of it ends. -/
theorem getElem?_succ_positions (hform : listing.forms[k]? = some (i, wide))
    (hpos : listing.positions[k]? = some pos) :
    listing.positions[k + 1]? = some (pos + i.size pos wide) := by
  obtain ⟨front, back, rfl, rfl⟩ := exists_split_of_forms hform
  obtain rfl := Option.some.inj ((getElem?_positionsFrom 0 front _).symm.trans hpos)
  have hnext := getElem?_positionsFrom 0 (front ++ [.code i wide]) back
  rw [List.append_assoc, stop_append, forms_append, List.length_append] at hnext
  exact hnext

/-! ## Labels

Of several labels for one old offset the last counts, in the layout as well as here. -/

/-- An old offset has a number if it has a label. Labels at the end have the number behind the last
instruction. -/
theorem index?_eq_none_iff : index? pc listing = none ↔ pc ∉ listing.labels := by
  induction listing with
  | nil => simp [index?, labels]
  | cons line rest ih =>
    cases line with
    | label pc' =>
      show (index? pc rest).or _ = none ↔ pc ∉ pc' :: labels rest
      rw [Option.or_eq_none_iff, ih, List.mem_cons, not_or]
      by_cases hpc : pc' = pc
      · simp [hpc]
      · simp [hpc, Ne.symm hpc]
    | code i wide =>
      show (index? pc rest).map _ = none ↔ pc ∉ labels rest
      rw [Option.map_eq_none_iff, ih]

/-- A label by the number of its instruction is one of the lines, and the last one of its kind. What
stands in front of it are as many instructions as the number says. -/
theorem exists_split_of_index? (h : index? pc listing = some k) :
    ∃ front back : Listing, listing = front ++ .label pc :: back ∧ front.forms.length = k
      ∧ pc ∉ back.labels := by
  induction listing generalizing k with
  | nil => cases h
  | cons line rest ih =>
    cases line with
    -- A label counts only if it does not come again.
    | label pc' =>
      rcases Option.or_eq_some_iff.1 h with hrest | ⟨hnone, hhere⟩
      · obtain ⟨front, back, rfl, hk, hlast⟩ := ih hrest
        exact ⟨.label pc' :: front, back, rfl, hk, hlast⟩
      · split at hhere
        · next hpc =>
          cases hhere
          exact ⟨[], rest, by rw [hpc]; rfl, rfl, index?_eq_none_iff.1 hnone⟩
        · cases hhere
    | code i wide =>
      obtain ⟨k, hrest, rfl⟩ := Option.map_eq_some_iff.1 h
      obtain ⟨front, back, rfl, hk, hlast⟩ := ih hrest
      exact ⟨.code i wide :: front, back, rfl, congrArg (· + 1) hk, hlast⟩

/-- **A label lies where its instruction begins.** -/
theorem exists_place_of_index? (h : index? pc listing = some k) :
    ∃ place, listing.positions[k]? = some place ∧ listing.layout.place pc = .ok place := by
  obtain ⟨front, back, rfl, rfl, hlast⟩ := exists_split_of_index? h
  exact ⟨stop 0 front, getElem?_positionsFrom 0 front _, place_of_split hlast⟩

/-! ## Code

What is written for an instruction stands in the code from its offset on, whatever stands around
it. -/

section Code

variable {place : Nat → Except ClassError Nat} {done : List Bytes} {out : Bytes}

/-- What has been written is in front of what comes behind. The writer collects parts backwards, and
puts them together at its end. -/
theorem exists_behind_of_bytesOnto (h : bytesOnto place done pos listing = .ok out) :
    ∃ behind, out = done.reverse.flatten ++ behind := by
  induction listing generalizing done pos with
  | nil =>
    cases h
    exact ⟨[], (List.append_nil _).symm⟩
  | cons line rest ih =>
    cases line with
    | label pc => exact ih h
    | code i wide =>
      obtain ⟨bs, _, h⟩ := bind_eq_ok.1 h
      obtain ⟨behind, hout⟩ := ih h
      rw [List.reverse_cons, List.flatten_append, List.append_assoc] at hout
      exact ⟨_, hout⟩

/-- The written form of a line stands behind those of the lines in front of it. Its position is the
length of what is in front. -/
theorem written_at_of_bytesOnto
    (h : bytesOnto place done pos (front ++ .code i wide :: back) = .ok out)
    (hpos : done.reverse.flatten.length = pos) :
    ∃ before written behind, out = before ++ written ++ behind
      ∧ before.length = stop pos front ∧ i.bytes place (stop pos front) wide = .ok written := by
  induction front generalizing done pos with
  | nil =>
    obtain ⟨written, hwritten, h⟩ := bind_eq_ok.1 h
    obtain ⟨behind, rfl⟩ := exists_behind_of_bytesOnto h
    refine ⟨done.reverse.flatten, written, behind, ?_, hpos, hwritten⟩
    simp
  | cons line front ih =>
    cases line with
    | label pc => exact ih h hpos
    | code j wide' =>
      obtain ⟨bs, hbs, h⟩ := bind_eq_ok.1 h
      refine ih h ?_
      rw [List.reverse_cons, List.flatten_append, List.length_append, hpos, List.flatten_singleton,
        Instruction.length_bytes hbs]
      rfl

/-- Lines that cannot be written have one among them that cannot. It is the first one, with all in
front of it written. -/
theorem error_of_bytesOnto {e : ClassError} (h : bytesOnto place done pos listing = .error e) :
    ∃ front i wide back, listing = front ++ .code i wide :: back
      ∧ i.bytes place (stop pos front) wide = .error e := by
  induction listing generalizing done pos with
  | nil => cases h
  | cons line rest ih =>
    cases line with
    | label pc =>
      obtain ⟨front, i, wide, back, rfl, hfails⟩ := ih h
      exact ⟨.label pc :: front, i, wide, back, rfl, hfails⟩
    | code j wide' =>
      rcases bind_eq_error.1 h with hhere | ⟨bs, _, h⟩
      · exact ⟨[], j, wide', rest, rfl, hhere⟩
      · obtain ⟨front, i, wide, back, rfl, hfails⟩ := ih h
        exact ⟨.code j wide' :: front, i, wide, back, rfl, hfails⟩

end Code

/-- **The written form of an instruction stands in the code where the instruction begins.** -/
theorem written_at_of_bytes {code : Bytes} (h : listing.bytes = .ok code)
    (hform : listing.forms[k]? = some (i, wide)) (hpos : listing.positions[k]? = some pos) :
    ∃ before written behind, code = before ++ written ++ behind ∧ before.length = pos
      ∧ i.bytes listing.layout.place pos wide = .ok written := by
  obtain ⟨front, back, rfl, rfl⟩ := exists_split_of_forms hform
  obtain rfl := Option.some.inj ((getElem?_positionsFrom 0 front _).symm.trans hpos)
  exact written_at_of_bytesOnto (bytes_eq_ok.1 h).2 rfl

end ClassLoom.Listing
