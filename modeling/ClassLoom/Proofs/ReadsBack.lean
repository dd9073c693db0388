import ClassLoom.Proofs.Computation

/-!
# What is written is read back

`ReadsBack p bs a` says that the reader `p` takes exactly `bs` off any bytes that start with it
and gives `a`.

* `ReadsBack.bind`, `ReadsBack.table`: one part behind another, and parts in a table.
-/

namespace ClassLoom

/-- Whether a reader takes `bs`, whatever is behind, and gives `a`. -/
def ReadsBack {α : Type} (p : Reader α) (bs : Bytes) (a : α) : Prop :=
  ∀ rest, p (bs ++ rest) = .ok (a, rest)

namespace ReadsBack

variable {α β : Type} {bs bs' : Bytes}

theorem pure (a : α) : ReadsBack (pure a) [] a := fun _ => rfl

/-- Two things that read back one after the other do so together. -/
theorem bind {p : Reader α} {f : α → Reader β} {a : α} {b : β} (hp : ReadsBack p bs a)
    (hf : ReadsBack (f a) bs' b) : ReadsBack (p >>= f) (bs ++ bs') b := by
  intro rest
  rw [List.append_assoc, Reader.bind_run (hp _), hf]

theorem map {p : Reader α} {f : α → β} {a : α} (hp : ReadsBack p bs a) :
    ReadsBack (p >>= fun a => Pure.pure (f a)) bs (f a) := by
  have h := hp.bind (f := fun a => Pure.pure (f a)) (pure (f a))
  rwa [List.append_nil] at h

theorem lift {x : Except ClassError α} {f : α → Reader β} {a : α} {b : β} (hx : x = .ok a)
    (hf : ReadsBack (f a) bs b) : ReadsBack ((liftM x : Reader α) >>= f) bs b := by
  intro rest
  rw [Reader.bind_run (Reader.lift_run hx _), hf]

theorem word16 (w : UInt16) : ReadsBack Reader.word16 (Bytes.word16 w) w := Reader.word16_append w

theorem word32 (w : UInt32) : ReadsBack Reader.word32 (Bytes.word32 w) w := Reader.word32_append w

theorem bytes (taken : Bytes) : ReadsBack (Reader.bytes taken.length) taken taken :=
  Reader.bytes_append taken

/-- Items that each read back also do in a row, behind those that were read before. -/
theorem timesOnto {p : Reader α} {parts : List Bytes} {items : List α}
    (h : List.Forall₂ (ReadsBack p) parts items) (done : List α) (rest : Bytes) :
    Reader.timesOnto p items.length done (parts.flatten ++ rest)
      = .ok (done.reverse ++ items, rest) := by
  induction h generalizing done with
  | nil => simp [Reader.timesOnto]
  | cons hhead _ ih =>
    rw [List.flatten_cons, List.append_assoc, List.length_cons, Reader.timesOnto, hhead]
    simp only [ih, List.reverse_cons, List.append_assoc, List.singleton_append]

theorem times {p : Reader α} {parts : List Bytes} {items : List α}
    (h : List.Forall₂ (ReadsBack p) parts items) :
    ReadsBack (Reader.times items.length p) parts.flatten items :=
  timesOnto h []

end ReadsBack

/-- A count that can be written. -/
theorem count16_eq_ok {n : Nat} {bs : Bytes} (h : Bytes.count16 n = .ok bs) :
    bs = Bytes.word16 (UInt16.ofNat n) ∧ (UInt16.ofNat n).toNat = n := by
  unfold Bytes.count16 at h
  split at h
  · next hlt =>
    cases h
    refine ⟨rfl, ?_⟩
    rw [UInt16.toNat_ofNat', Nat.mod_eq_of_lt hlt]
  · cases h

/-- **Tables read back** if all their entries do. -/
theorem ReadsBack.table {α : Type} {p : Reader α} {count : Bytes} {parts : List Bytes}
    {items : List α} (hcount : Bytes.count16 items.length = .ok count)
    (h : List.Forall₂ (ReadsBack p) parts items) :
    ReadsBack (Reader.table p) (count ++ parts.flatten) items := by
  obtain ⟨rfl, hlength⟩ := count16_eq_ok hcount
  refine (ReadsBack.word16 _).bind ?_
  rw [hlength]
  exact .times h

/-- What takes up all bytes. -/
theorem ReadsBack.all {α : Type} {p : Reader α} {bs : Bytes} {a : α} (h : ReadsBack p bs a) :
    Reader.all p bs = .ok a := by
  have hrun := h []
  rw [List.append_nil] at hrun
  unfold Reader.all
  rw [hrun]
  rfl

end ClassLoom
