import ClassLoom.Proofs.Instruction.Decoded
import ClassLoom.Proofs.Listing.Layout

/-!
# Laid out listings decode

The code of a listing decodes to the listing's instructions, each at the offset where its line
begins, with every target moved to the offset of its label (`Listing.placed`). For that every
target must lead to an instruction: a label at the end of the listing is the offset of none.

* `spells_of_bytesOnto`: the bytes of lines spell their instructions;
* `decode_of_bytes`: the code of a listing decodes.
-/

namespace ClassLoom.Listing

open Instruction (Spells ReadsAs)

/-! ## Placed instructions

What is written for lines is decoded again, and then each instruction has its own offset, and
targets that are offsets of the new code. -/

/-- The instructions of lines that begin at an offset, with their own offsets and with their
targets moved by `f`. -/
def placed (f : Nat → Nat) : Nat → Listing → List (Nat × Instruction)
  | _, [] => []
  | pos, .label _ :: rest => placed f pos rest
  | pos, .code i wide :: rest => (pos, i.placed f wide) :: placed f (pos + i.size pos wide) rest

/-- The instructions of two parts, of which the second begins where the first one stops. -/
theorem placed_append (f : Nat → Nat) (pos : Nat) (front back : Listing) :
    placed f pos (front ++ back) = placed f pos front ++ placed f (stop pos front) back := by
  induction front generalizing pos with
  | nil => rfl
  | cons line front ih =>
    cases line with
    | label pc => exact ih pos
    | code i wide => exact congrArg ((pos, i.placed f wide) :: ·) (ih _)

/-- There are as many as there are lines with instructions. -/
theorem length_placed (f : Nat → Nat) (pos : Nat) (listing : Listing) :
    (placed f pos listing).length = listing.instructions.length := by
  induction listing generalizing pos with
  | nil => rfl
  | cons line rest ih =>
    cases line with
    | label pc => exact ih pos
    | code i wide => exact congrArg (· + 1) (ih _)

/-- The instruction behind a label is at the offset where the lines in front of it stop. -/
theorem getElem?_placed (f : Nat → Nat) (pos pc : Nat) (i : Instruction) (wide : Bool)
    (front back : Listing) :
    (placed f pos (front ++ .label pc :: .code i wide :: back))[front.instructions.length]?
      = some (stop pos front, i.placed f wide) := by
  rw [placed_append, ← length_placed f pos front, List.getElem?_append_right (Nat.le_refl _),
    Nat.sub_self]
  rfl

/-- Placed instructions come from lines. -/
theorem mem_placed {f : Nat → Nat} {pos : Nat} {listing : Listing} {e : Nat × Instruction}
    (h : e ∈ placed f pos listing) :
    ∃ i wide, Line.code i wide ∈ listing ∧ e.2 = i.placed f wide := by
  induction listing generalizing pos with
  | nil => cases h
  | cons line rest ih =>
    cases line with
    | label pc =>
      obtain ⟨i, wide, hmem, he⟩ := ih h
      exact ⟨i, wide, List.mem_cons_of_mem _ hmem, he⟩
    | code i wide =>
      rcases List.mem_cons.1 h with rfl | h
      · exact ⟨i, wide, List.mem_cons_self .., rfl⟩
      · obtain ⟨i', wide', hmem, he⟩ := ih h
        exact ⟨i', wide', List.mem_cons_of_mem _ hmem, he⟩

/-! ## Labels that lead to instructions

A target is an offset at which an instruction starts if its label stands in front of one. A label at
the end of the code has an offset as well, but nothing starts there. -/

/-- The offset of a label, which is 0 for one that is not there. -/
def offsetOf (listing : Listing) (pc : Nat) : Nat := (listing.layout.offsets[pc]?).getD 0

/-- Whether a label stands directly in front of an instruction. -/
def Leads (listing : Listing) (pc : Nat) : Prop :=
  ∃ front i wide back, listing = front ++ .label pc :: .code i wide :: back ∧ pc ∉ labels back

/-- What has a place has its offset there. -/
theorem offsetOf_of_place {listing : Listing} {pc offset : Nat}
    (h : listing.layout.place pc = .ok offset) : listing.offsetOf pc = offset := by
  unfold Layout.place at h
  split at h
  · next found hfound =>
    cases h
    unfold offsetOf
    rw [hfound]
    rfl
  · cases h

section Leads

variable {listing : Listing} {pc : Nat}

/-- A label that stands in front of an instruction has a place. -/
theorem Leads.place (h : listing.Leads pc) : listing.layout.place pc = .ok (listing.offsetOf pc) := by
  obtain ⟨front, i, wide, back, rfl, hback⟩ := h
  have hplace : (layout (front ++ .label pc :: .code i wide :: back)).place pc
      = .ok (stop 0 front) := place_of_split (by simpa [labels] using hback)
  rw [hplace, offsetOf_of_place hplace]

/-- The offset of a label in front of an instruction is the offset of that instruction. -/
theorem Leads.mem_starts (h : listing.Leads pc) (f : Nat → Nat) :
    listing.offsetOf pc ∈ (placed f 0 listing).map (·.1) := by
  obtain ⟨front, i, wide, back, rfl, hback⟩ := h
  rw [offsetOf_of_place (place_of_split (by simpa [labels] using hback)), placed_append]
  simp [placed]

/-- It lies inside the code. -/
theorem Leads.offsetOf_lt (h : listing.Leads pc)
    (hwf : ∀ i wide, Line.code i wide ∈ listing → i.WellFormed) :
    listing.offsetOf pc < stop 0 listing := by
  obtain ⟨front, i, wide, back, rfl, hback⟩ := h
  rw [offsetOf_of_place (place_of_split (by simpa [labels] using hback)), stop_append, stop_cons,
    stop_cons]
  have hpos := (hwf i wide (by simp)).size_pos (stop 0 front) wide
  have hle := le_stop (stop 0 front + i.size (stop 0 front) wide) back
  show stop 0 front < stop (stop 0 front + i.size (stop 0 front) wide) back
  omega

end Leads

/-! ## Decoding

By induction on the lines, the bytes spell the placed instructions. The limit on the size is that of
distances. -/

/-- The bytes of lines spell the instructions of the lines, and take up what the layout
reserves for them. -/
theorem spells_of_bytesOnto {place : Nat → Except ClassError Nat} {f : Nat → Nat}
    {size pos : Nat} {listing : Listing} {done : List Bytes} {out : Bytes}
    (h : bytesOnto place done pos listing = .ok out)
    (hwf : ∀ i wide, Line.code i wide ∈ listing → i.WellFormed)
    (hplace : ∀ i wide, Line.code i wide ∈ listing → ∀ t ∈ i.targets, place t = .ok (f t))
    (hin : ∀ i wide, Line.code i wide ∈ listing → ∀ t ∈ i.targets, f t < size)
    (hend : stop pos listing ≤ size) (hsize : size ≤ 2147483648) :
    ∃ bs, out = done.reverse.flatten ++ bs ∧ pos + bs.length = stop pos listing
      ∧ Spells size pos bs (placed f pos listing) := by
  induction listing generalizing done pos with
  | nil =>
    cases h
    exact ⟨[], by simp, rfl, .nil pos⟩
  | cons line rest ih =>
    have hwf' := fun i wide hmem => hwf i wide (List.mem_cons_of_mem line hmem)
    have hplace' := fun i wide hmem => hplace i wide (List.mem_cons_of_mem line hmem)
    have hin' := fun i wide hmem => hin i wide (List.mem_cons_of_mem line hmem)
    cases line with
    -- Labels have no bytes.
    | label pc => exact ih h hwf' hplace' hin' hend
    | code i wide =>
      obtain ⟨head, hhead, h⟩ := bind_eq_ok.1 h
      have hself : Line.code i wide ∈ Line.code i wide :: rest := List.mem_cons_self ..
      have hlength := Instruction.length_bytes hhead
      have hfits : pos + i.size pos wide ≤ size :=
        Nat.le_trans (le_stop _ rest) hend
      have hread := Instruction.readsAs_bytes (hwf i wide hself) (hplace i wide hself)
        (hin i wide hself) hhead hfits hsize
      obtain ⟨bs, hout, hstop, hspells⟩ := ih h hwf' hplace' hin' hend
      refine ⟨head ++ bs, ?_, ?_, ?_⟩
      · rw [hout, List.reverse_cons, List.flatten_append]
        simp
      · rw [List.length_append, hlength, ← Nat.add_assoc]
        exact hstop
      · refine .cons hread ?_ ?_
        · rw [hlength, Instruction.size_placed]
        · rw [Instruction.size_placed]
          exact hspells

/-- What is written has targets with places. -/
theorem place_of_bytesOnto {place : Nat → Except ClassError Nat} {pos : Nat} {listing : Listing}
    {done : List Bytes} {out : Bytes} (h : bytesOnto place done pos listing = .ok out) :
    ∀ i wide, Line.code i wide ∈ listing → ∀ t ∈ i.targets, ∃ offset, place t = .ok offset := by
  induction listing generalizing done pos with
  | nil => simp
  | cons line rest ih =>
    intro i wide hmem
    cases line with
    | label pc =>
      rcases List.mem_cons.1 hmem with hmem | hmem
      · cases hmem
      · exact ih h i wide hmem
    | code i' wide' =>
      obtain ⟨head, hhead, h⟩ := bind_eq_ok.1 h
      rcases List.mem_cons.1 hmem with hmem | hmem
      · cases hmem
        exact Instruction.place_of_bytes hhead
      · exact ih h i wide hmem

/-- Code is written only if all targets are labels. -/
theorem mem_labels_of_bytes {listing : Listing} {code : Bytes} (h : listing.bytes = .ok code) :
    ∀ i wide, Line.code i wide ∈ listing → ∀ t ∈ i.targets, t ∈ listing.labels := by
  intro i wide hmem t ht
  unfold bytes at h
  simp only at h
  split at h
  · cases h
  · obtain ⟨offset, hoffset⟩ := place_of_bytesOnto h i wide hmem t ht
    exact mem_labels_of_place hoffset

/-- **The code of a listing decodes** to its instructions at their offsets, with all targets at
the offsets of their labels. -/
theorem decode_of_bytes {listing : Listing} {code : Bytes} (h : listing.bytes = .ok code)
    (hwf : ∀ i wide, Line.code i wide ∈ listing → i.WellFormed)
    (hleads : ∀ i wide, Line.code i wide ∈ listing → ∀ t ∈ i.targets, listing.Leads t) :
    Instruction.decode code = .ok (placed listing.offsetOf 0 listing) := by
  unfold bytes at h
  simp only at h
  split at h
  · cases h
  · next hlimit =>
    rw [size_layout] at hlimit
    have hplace := fun i wide hmem t ht => (hleads i wide hmem t ht).place
    have hin := fun i wide hmem t ht => (hleads i wide hmem t ht).offsetOf_lt hwf
    have hsize : stop 0 listing ≤ 2147483648 := by omega
    obtain ⟨bs, hcode, hlength, hspells⟩ :=
      spells_of_bytesOnto h hwf hplace hin (Nat.le_refl _) hsize
    rw [List.reverse_nil, List.flatten_nil, List.nil_append] at hcode
    subst hcode
    rw [Nat.zero_add] at hlength
    -- Every target is the offset of a label, and labels lie at starts of instructions.
    rw [Instruction.decode_eq_ok, hlength]
    refine ⟨hspells.decodeOnto [], ?_⟩
    intro e he t ht
    obtain ⟨i, wide, hmem, hplaced⟩ := mem_placed he
    rw [hplaced, Instruction.targets_placed] at ht
    obtain ⟨target, htarget, rfl⟩ := List.mem_map.1 ht
    exact (hleads i wide hmem target htarget).mem_starts _

end ClassLoom.Listing
