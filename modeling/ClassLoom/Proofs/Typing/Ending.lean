import ClassLoom.Proofs.Typing.Settled

/-!
# Re-typing comes to an end

Re-typing goes over a body again and again, until a pass changes nothing or fails. What the
hierarchy says may be anything: chains of superclasses may lead back to where they began or never
end, and run through interfaces, arrays and classes of which nothing is known. The passes come to
an end all the same, since no slot ever gets back to a type that it has left.

* `FrameTable.slot?_ne_of_moved`: a slot does not get back to a type that it has left;
* `passes_end`: the passes over a body, from the frames that it declares on.
-/

namespace ClassLoom.Typing

variable {h : Hierarchy}

/-! ## Slots of tables

Single slots are followed through the passes here. A slot is named by its place in a frame, as
frames keep their shapes. -/

/-- A slot of a state: a local variable, or a place on the operand stack, counted from its top. -/
inductive Place where
  | onLocal (n : Nat)
  | onStack (n : Nat)
  deriving DecidableEq, Repr

/-- The type of a slot, if the state has it. -/
def MachineState.slot? (s : MachineState) : Place → Option SlotType
  | .onLocal n => s.locals[n]?
  | .onStack n => s.stack[n]?

/-- The type of a slot of the frame at an offset, if there is one. -/
def FrameTable.slot? (table : FrameTable) (pc : Nat) (place : Place) : Option SlotType :=
  (table.lookup pc).bind (·.slot? place)

/-- A slot that has moved ranks below what it was, however often it moves on. -/
theorem SlotType.WidensTo.ne_of_ne {s t u : SlotType} (hst : WidensTo h s t) (htu : WidensTo h t u)
    (hne : t ≠ s) : u ≠ s := by
  rintro rfl
  obtain hsame | ⟨hlt, _⟩ := hst
  · exact hne hsame
  · obtain hsame | ⟨hlt', _⟩ := htu
    · exact hne hsame.symm
    · omega

/-- The items of related lists at one place. -/
theorem rel_getElem? {α : Type} {R : α → α → Prop} {xs ys : List α} (hrel : List.Forall₂ R xs ys)
    (n : Nat) : Option.Rel R xs[n]? ys[n]? := by
  induction hrel generalizing n with
  | nil => exact .none
  | cons hhead _ ih =>
    cases n with
    | zero => exact .some hhead
    | succ n => exact ih n

/-- Slots of a frame that widens widen. -/
theorem MachineState.WidensTo.rel_slot? {old new : MachineState} (hwidens : WidensTo h old new)
    (place : Place) : Option.Rel (SlotType.WidensTo h) (old.slot? place) (new.slot? place) := by
  cases place with
  | onLocal n => exact rel_getElem? hwidens.locals n
  | onStack n => exact rel_getElem? hwidens.stack n

namespace FrameTable

/-- Frames of a table that widens widen. At offsets without a frame there is none in either
table. -/
theorem WidensTo.rel_lookup {old new : FrameTable} (hwidens : WidensTo h old new) (pc : Nat) :
    Option.Rel (MachineState.WidensTo h) (old.lookup pc) (new.lookup pc) := by
  induction hwidens with
  | nil => exact .none
  | @cons f g old new hhead _ ih =>
    obtain ⟨offset, state⟩ := f
    obtain ⟨offset', state'⟩ := g
    obtain ⟨rfl, hstate⟩ := hhead
    cases hhere : pc == offset with
    | true =>
      rw [List.lookup_cons, List.lookup_cons, hhere]
      exact .some hstate
    | false =>
      rw [List.lookup_cons, List.lookup_cons, hhere]
      exact ih

/-- A row of moves widens every slot, or leaves it. -/
theorem Moved.rel_slot? {old new : FrameTable} (hmoved : Moved h old new) (pc : Nat)
    (place : Place) :
    Option.Rel (SlotType.WidensTo h) (old.slot? pc place) (new.slot? pc place) := by
  have hframes := hmoved.widensTo.rel_lookup pc
  unfold slot?
  generalize old.lookup pc = frame at hframes ⊢
  generalize new.lookup pc = frame' at hframes ⊢
  cases hframes with
  | none => exact .none
  | some hstate => exact hstate.rel_slot? place

/-- **A slot does not get back to a type that it has left.** A type that has been left has a higher
rank than all that can follow it. -/
theorem slot?_ne_of_moved {a b c : FrameTable} (hab : Moved h a b) (hbc : Moved h b c) {pc : Nat}
    {place : Place} (hleft : b.slot? pc place ≠ a.slot? pc place) :
    c.slot? pc place ≠ a.slot? pc place := by
  have hfirst := hab.rel_slot? pc place
  have hsecond := hbc.rel_slot? pc place
  generalize a.slot? pc place = s at hfirst hleft ⊢
  generalize b.slot? pc place = t at hfirst hsecond hleft
  generalize c.slot? pc place = u at hsecond ⊢
  cases hfirst with
  | none => exact absurd rfl hleft
  | some hst =>
    cases hsecond with
    | some htu =>
      simp only [ne_eq, Option.some.injEq] at hleft ⊢
      exact hst.ne_of_ne htu hleft

end FrameTable

/-! ## Passes over a body

The bound is what each slot can lose in rank, for all slots together. No property of the hierarchy
is used, so cycles in it do no harm. -/

/-- **The passes over a body come to an end.** From the frames that a body declares on, a bounded
number of passes change something, and the one behind them changes nothing or fails; that is
what re-typing goes on with. Whichever stretch of instructions a pass goes through, it only moves
slots on, and in whatever order slots move, none gets back to a type that it has left. -/
theorem passes_end (h : Hierarchy) (method : EnclosingMethod) (code : Code) (pool : ConstantPool)
    (instructions : List (Nat × Instruction)) (start : MachineState) {values : List SlotType}
    {info : Bytes} {frames : List StackMap.Frame} {declared : FrameTable}
    (hparse : StackMap.parse info = .ok frames)
    (hdeclared : FrameTable.declared pool code.maxLocals.toNat values frames = .ok declared) :
    let setting : Setting := { hierarchy := h, pool, method }
    let pass := Pass.run setting code.handlers instructions start
    (∃ n ≤ (chainLimit + 3) * declared.slotCount, ∃ last, Pass.Repeated pass n declared last
        ∧ (pass last = .ok last ∨ ∃ e, pass last = .error e)
        ∧ Pass.settle pass declared = pass last)
      ∧ (∀ (stretch : List (Nat × Instruction)) (flow left : Flow),
        FrameTable.Moved h declared flow.table →
        stretch.foldlM (Pass.visit setting code.handlers) flow = .ok left →
        FrameTable.Moved h flow.table left.table)
      ∧ ∀ a b c : FrameTable, FrameTable.Moved h a b → FrameTable.Moved h b c → ∀ pc place,
        b.slot? pc place ≠ a.slot? pc place → c.slot? pc place ≠ a.slot? pc place := by
  intro setting pass
  have hnodup := FrameTable.declared_nodup hparse hdeclared
  refine ⟨?_, ?_, ?_⟩
  -- The last run that changes something is followed by one that does not, or by a failure.
  · obtain ⟨n, hn, last, hrepeated, _, hend, hsettle⟩ :=
      Pass.exists_last_run setting code.handlers instructions start hnodup
    exact ⟨n, hn, last, hrepeated, hend, hsettle⟩
  · intro stretch flow left hflow hvisits
    exact Pass.visitAll_moved hvisits (hflow.nodup hnodup)
  · intro a b c hab hbc pc place
    exact FrameTable.slot?_ne_of_moved hab hbc

/-- A jump brings an object of class `C` to a frame that declares one of class `A`, and `A` and
`B` are superclasses of each other. The frame takes an object of any class then. -/
theorem passes_end_cycle :
    let h : Hierarchy := fun name =>
      some (.subclass (some (if name = "A" then "B" else if name = "B" then "A" else objectName)))
    let method : EnclosingMethod :=
      { owner := "C", name := "f", descriptor := "(LC;)V", isStatic := true }
    let code : Code :=
      { maxStack := 0, maxLocals := 1, bytecode := [0xa7, 0, 3, 0xb1], attributes := [] }
    let pool := ConstantPool.after (ConstantPool.intern (.classInfo 1))
      (ConstantPool.after (ConstantPool.intern (.utf8 "A")) ConstantPool.empty)
    let frames : List StackMap.Frame := [{ offset := 3, change := .full [.object 2] [] }]
    let declared : FrameTable := [(3, { locals := [.reference "A"], stack := [] })]
    let pass := Pass.run { hierarchy := h, pool, method } code.handlers
      [(0, .branch Opcode.goto 3), (3, .plain [Opcode.vreturn])]
      { locals := [.reference "C"], stack := [] }
    StackMap.parse [0, 1, 255, 0, 3, 0, 1, 7, 0, 2, 0, 0] = .ok frames
      ∧ FrameTable.declared pool code.maxLocals.toNat [.reference "C"] frames = .ok declared
      ∧ (∃ n last, Pass.Repeated pass n declared last
        ∧ (pass last = .ok last ∨ ∃ e, pass last = .error e))
      ∧ pass declared = .ok [(3, { locals := [.reference objectName], stack := [] })] := by
  intro h method code pool frames declared pass
  have hparse : StackMap.parse [0, 1, 255, 0, 3, 0, 1, 7, 0, 2, 0, 0] = .ok frames := by
    decide +kernel
  have hdeclared : FrameTable.declared pool code.maxLocals.toNat [.reference "C"] frames
      = .ok declared := by
    decide +kernel
  obtain ⟨n, _, last, hrepeated, hend, _⟩ := (passes_end h method code pool
    [(0, .branch Opcode.goto 3), (3, .plain [Opcode.vreturn])]
    { locals := [.reference "C"], stack := [] } hparse hdeclared).1
  exact ⟨hparse, hdeclared, ⟨n, last, hrepeated, hend⟩, by decide +kernel⟩

end ClassLoom.Typing
