import ClassLoom.Listing
import ClassLoom.Proofs.Computation

/-!
# Where the lines of a listing lie

`Listing.stop` runs over the sizes of lines; a label lies where the lines in front of it stop.
Relaxing only widens short `goto` and `jsr` lines, so labels and instructions stay in order.

* `place_of_split`: the place of a label, from the lines in front of it;
* `widened_of_relax`: what relaxing changes.
-/

namespace ClassLoom

namespace Listing

/-! ## Offsets

A listing takes up as many bytes as its lines do, and these depend on where they stand, since
switches are padded. So offsets are running sums, and `stop` is where such a sum ends. -/

/-- The offset behind lines that begin at `pos`. -/
def stop : Nat → Listing → Nat
  | pos, [] => pos
  | pos, line :: rest => stop (pos + line.size pos) rest

/-- The old offsets that labels stand for. -/
def labels (listing : Listing) : List Nat :=
  listing.filterMap fun
    | .label pc => some pc
    | .code _ _ => none

/-- The instructions of a listing, in order. -/
def instructions (listing : Listing) : List Instruction :=
  listing.filterMap fun
    | .label _ => none
    | .code i _ => some i

@[simp] theorem stop_nil (pos : Nat) : stop pos [] = pos := rfl

@[simp] theorem stop_cons (pos : Nat) (line : Line) (rest : Listing) :
    stop pos (line :: rest) = stop (pos + line.size pos) rest := rfl

/-- The lines behind begin where those in front stop. -/
theorem stop_append (pos : Nat) (front back : Listing) :
    stop pos (front ++ back) = stop (stop pos front) back := by
  induction front generalizing pos with
  | nil => rfl
  | cons line front ih => exact ih _

/-- Offsets only grow. A label takes up nothing, and an instruction something. -/
theorem le_stop (pos : Nat) (listing : Listing) : pos ≤ stop pos listing := by
  induction listing generalizing pos with
  | nil => exact Nat.le_refl _
  | cons line rest ih => exact Nat.le_trans (Nat.le_add_right _ _) (ih _)

/-- The instructions of a listing are those in its lines. -/
theorem mem_instructions {i : Instruction} {listing : Listing} :
    i ∈ listing.instructions ↔ ∃ wide, Line.code i wide ∈ listing := by
  unfold instructions
  rw [List.mem_filterMap]
  constructor
  · rintro ⟨line, hmem, hline⟩
    cases line with
    | label pc => cases hline
    | code j wide =>
      cases hline
      exact ⟨wide, hmem⟩
  · rintro ⟨wide, hmem⟩
    exact ⟨_, hmem, rfl⟩

@[simp] theorem labels_append (front back : Listing) :
    (front ++ back : Listing).labels = front.labels ++ back.labels :=
  List.filterMap_append ..

@[simp] theorem instructions_append (front back : Listing) :
    (front ++ back : Listing).instructions = front.instructions ++ back.instructions :=
  List.filterMap_append ..

/-- A listing without labels is a row of instructions. -/
theorem instructions_map_code (is : List Instruction) :
    instructions (is.map (Line.code · false)) = is := by
  induction is with
  | nil => rfl
  | cons i is ih => exact congrArg (i :: ·) ih

theorem labels_map_code (is : List Instruction) : labels (is.map (Line.code · false)) = [] := by
  induction is with
  | nil => rfl
  | cons i is ih => exact ih

/-! ## Layouts

A layout has the places of all labels. It is made by going through the lines once; what is found for
a label afterwards is told by the lines in front of it. -/

/-- A layout ends where the lines do that have been added to it. -/
theorem size_foldl_addLine (layout : Layout) (listing : Listing) :
    (listing.foldl Layout.addLine layout).size = stop layout.size listing := by
  induction listing generalizing layout with
  | nil => rfl
  | cons line rest ih =>
    cases line with
    | label pc => exact ih _
    | code i wide => exact ih _

/-- Lines that do not name an offset leave its place as it is. Of several labels for one offset the
last counts. -/
theorem offsets_foldl_addLine {pc : Nat} {listing : Listing} (h : pc ∉ listing.labels)
    (layout : Layout) :
    (listing.foldl Layout.addLine layout).offsets[pc]? = layout.offsets[pc]? := by
  induction listing generalizing layout with
  | nil => rfl
  | cons line rest ih =>
    cases line with
    | label pc' =>
      have hne : pc ≠ pc' ∧ pc ∉ labels rest := by simpa [labels] using h
      rw [List.foldl_cons, ih hne.2]
      simp only [Layout.addLine, Std.TreeMap.getElem?_insert]
      rw [if_neg (by simpa using Ne.symm hne.1)]
    | code i wide =>
      have hrest : pc ∉ labels rest := by simpa [labels] using h
      rw [List.foldl_cons, ih hrest]
      rfl

theorem size_layout (listing : Listing) : listing.layout.size = stop 0 listing :=
  size_foldl_addLine _ listing

/-- **The place of a label** is where the lines in front of its last occurrence stop. -/
theorem place_of_split {front back : Listing} {pc : Nat} (h : pc ∉ back.labels) :
    (front ++ .label pc :: back : Listing).layout.place pc = .ok (stop 0 front) := by
  have hoffset : (front ++ .label pc :: back : Listing).layout.offsets[pc]?
      = some (stop 0 front) := by
    unfold layout
    rw [List.foldl_append, List.foldl_cons, offsets_foldl_addLine h]
    simp only [Layout.addLine, Std.TreeMap.getElem?_insert_self, size_foldl_addLine]
  unfold Layout.place
  rw [hoffset]

/-- An offset without a label has no place, and looking for it is an error that names it. -/
theorem place_of_notMem_labels {listing : Listing} {pc : Nat} (h : pc ∉ listing.labels) :
    listing.layout.place pc = .error (.badCodeOffset pc) := by
  have hoffset : listing.layout.offsets[pc]? = none := by
    unfold layout
    rw [offsets_foldl_addLine h]
    rfl
  unfold Layout.place
  rw [hoffset]

/-- Only labels have places. A body in which all branches lead somewhere has labels for all of
them. -/
theorem mem_labels_of_place {listing : Listing} {pc offset : Nat}
    (h : listing.layout.place pc = .ok offset) : pc ∈ listing.labels := by
  by_contra hnot
  rw [place_of_notMem_labels hnot] at h
  cases h

end Listing

/-! ## Relaxing

Relaxing widens branches that do not reach, until all do. Whatever it does round by round, it keeps
every line in its place and changes no more than the form of some. -/

/-- What relaxing may do to a line: nothing, or widening a short `goto` or `jsr`. -/
inductive Line.Widened : Line → Line → Prop where
  | same (line : Line) : Widened line line
  | wide (op : UInt8) (target : Nat) (h : Opcode.isWidenable op = true) :
    Widened (.code (.branch op target) false) (.code (.branch op target) true)

/-- Widening twice is widening once: a branch that has been widened stays so. -/
theorem Line.Widened.trans {a b c : Line} (hab : Widened a b) (hbc : Widened b c) :
    Widened a c := by
  cases hab with
  | same => exact hbc
  | wide op target h =>
    cases hbc with
    | same => exact .wide op target h

namespace Listing

/-- The lines of a listing after some of them were widened. -/
abbrev Widened (listing relaxed : Listing) : Prop := List.Forall₂ Line.Widened listing relaxed

theorem Widened.refl (listing : Listing) : Widened listing listing := by
  induction listing with
  | nil => exact .nil
  | cons line rest ih => exact .cons (.same line) ih

/-- The same of all lines. -/
theorem Widened.trans {a b c : Listing} (hab : Widened a b) (hbc : Widened b c) :
    Widened a c := by
  induction hab generalizing c with
  | nil => exact hbc
  | cons hline _ ih =>
    cases hbc with
    | cons hline' hrest' => exact .cons (hline.trans hline') (ih hrest')

/-- Widening a listing is widening its parts. This is what carries a place in the listing over to
the relaxed one. -/
theorem Widened.split {front back relaxed : Listing} (h : Widened (front ++ back) relaxed) :
    ∃ front' back', relaxed = front' ++ back' ∧ Widened front front' ∧ Widened back back' := by
  induction front generalizing relaxed with
  | nil => exact ⟨[], relaxed, rfl, .nil, h⟩
  | cons line front ih =>
    rw [List.cons_append] at h
    cases h with
    | @cons _ line' _ relaxed' hline hrest =>
      obtain ⟨front', back', rfl, hfront, hback⟩ := ih hrest
      exact ⟨line' :: front', back', rfl, .cons hline hfront, hback⟩

/-- A round widens a line or leaves it. Nothing but `goto` and `jsr` has a wide form. -/
theorem widened_of_widenLine {place : Nat → Except ClassError Nat} {pos : Nat} {line line' : Line}
    (h : widenLine place pos line = .ok line') : Line.Widened line line' := by
  -- Four ways through the definition; only the one for short jumps out of reach changes the line.
  unfold widenLine at h
  split at h
  · next op target =>
    split at h
    · cases h
      exact .same _
    · obtain ⟨offset, _, h⟩ := bind_eq_ok.1 h
      split at h
      · cases h
        exact .same _
      · split at h
        · next hop =>
          cases h
          exact .wide op target hop
        · cases h
  · cases h
    exact .same _

/-- A round goes through the lines in order, with those that are done behind it. -/
theorem widened_of_widenOnto {place : Nat → Except ClassError Nat} {done : Listing} {pos : Nat}
    {listing relaxed : Listing} (h : widenOnto place done pos listing = .ok relaxed) :
    ∃ behind, relaxed = done.reverse ++ behind ∧ Widened listing behind := by
  induction listing generalizing done pos with
  | nil =>
    cases h
    exact ⟨[], by simp, .nil⟩
  | cons line rest ih =>
    obtain ⟨line', hline, h⟩ := bind_eq_ok.1 h
    obtain ⟨behind, hrelaxed, hbehind⟩ := ih h
    exact ⟨line' :: behind, by simp [hrelaxed], .cons (widened_of_widenLine hline) hbehind⟩

theorem widened_of_widen {listing relaxed : Listing} (h : widen listing = .ok relaxed) :
    Widened listing relaxed := by
  obtain ⟨behind, rfl, hbehind⟩ := widened_of_widenOnto h
  exact hbehind

/-- So do several, of which each starts with what the one before has given. Widening never takes a
wide form back. -/
theorem widened_of_relaxFor {rounds : Nat} {listing relaxed : Listing}
    (h : relaxFor rounds listing = .ok relaxed) : Widened listing relaxed := by
  induction rounds generalizing listing with
  | zero =>
    cases h
    exact .refl _
  | succ rounds ih =>
    obtain ⟨widened, hwiden, h⟩ := bind_eq_ok.1 h
    split at h
    · cases h
      exact .refl _
    · exact (widened_of_widen hwiden).trans (ih h)

/-- **Relaxing keeps all lines** and widens only `goto` and `jsr`. -/
theorem widened_of_relax {listing relaxed : Listing} (h : relax listing = .ok relaxed) :
    Widened listing relaxed :=
  widened_of_relaxFor h

/-- Widening moves no label to another line. -/
theorem Widened.labels {listing relaxed : Listing} (h : Widened listing relaxed) :
    relaxed.labels = listing.labels := by
  induction h with
  | nil => rfl
  | @cons line _ _ _ hline _ ih =>
    cases hline with
    | same => cases line <;> simpa [Listing.labels] using ih
    | wide op target hop => simpa [Listing.labels] using ih

/-- Widening changes no instruction but in what it takes up. -/
theorem Widened.instructions {listing relaxed : Listing} (h : Widened listing relaxed) :
    relaxed.instructions = listing.instructions := by
  induction h with
  | nil => rfl
  | @cons line _ _ _ hline _ ih =>
    cases hline with
    | same => cases line <;> simpa [Listing.instructions] using ih
    | wide op target hop => simpa [Listing.instructions] using ih

end Listing
end ClassLoom
