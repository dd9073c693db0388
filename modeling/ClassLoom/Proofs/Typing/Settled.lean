import ClassLoom.Proofs.Typing.Checked
import ClassLoom.Proofs.Typing.Growth
import ClassLoom.Proofs.Typing.TableRoundTrip

/-!
# Re-typed bodies stay as they are

A body that has been re-typed carries the frames that the passes settled on, and checks against
them, so re-typing it once more finds nothing to do.

Three things come together here: passes end at a table that one more of them leaves as it is
(`Pass.settle_run`), writing such a table and reading it back gives the table
(`FrameTable.bytes_spec`), and the names that writing interns change nothing of what the pool
says elsewhere (`Pass.run_grown`).

* `retype_retype`: the second run.
-/

namespace ClassLoom.Typing

open ConstantPool

/-! ## Declared frames

What is read from a table of frames has its offsets in order, and a state for each. -/

namespace FrameTable

variable {pool : ConstantPool} {maxLocals : Nat} {values : List SlotType}
  {frames : List StackMap.Frame} {table : FrameTable}

/-- What the frames of a body declare, one frame after the other. The locals of the first frame are
what the second one changes. -/
theorem declared_cons_eq_ok {frame : StackMap.Frame} :
    declared pool maxLocals values (frame :: frames) = .ok table
      ↔ ∃ locals stack state rest, change pool values frame.change = .ok (locals, stack)
        ∧ MachineState.ofValues maxLocals locals stack = .ok state
        ∧ declared pool maxLocals locals frames = .ok rest
        ∧ table = (frame.offset, state) :: rest := by
  constructor
  · intro h
    obtain ⟨⟨locals, stack⟩, hchange, h⟩ := bind_eq_ok.1 h
    obtain ⟨state, hstate, h⟩ := bind_eq_ok.1 h
    obtain ⟨rest, hrest, hend⟩ := bind_eq_ok.1 h
    cases hend
    exact ⟨locals, stack, state, rest, hchange, hstate, hrest, rfl⟩
  · rintro ⟨locals, stack, state, rest, hchange, hstate, hrest, rfl⟩
    exact bind_eq_ok.2 ⟨(locals, stack), hchange, bind_eq_ok.2 ⟨state, hstate,
      bind_eq_ok.2 ⟨rest, hrest, rfl⟩⟩⟩

/-- Every frame declares the state at its own offset. -/
theorem declared_offsets (h : declared pool maxLocals values frames = .ok table) :
    table.map (·.1) = frames.map (·.offset) := by
  induction frames generalizing values table with
  | nil =>
    cases h
    rfl
  | cons frame frames ih =>
    obtain ⟨locals, stack, state, rest, _, _, hrest, rfl⟩ := declared_cons_eq_ok.1 h
    rw [List.map_cons, List.map_cons, ih hrest]

/-- In declared states, wide types stand in front of unused slots. -/
theorem declared_paired (h : declared pool maxLocals values frames = .ok table) :
    Paired maxLocals table := by
  induction frames generalizing values table with
  | nil =>
    cases h
    exact fun f hf => absurd hf List.not_mem_nil
  | cons frame frames ih =>
    obtain ⟨locals, stack, state, rest, _, hstate, hrest, rfl⟩ := declared_cons_eq_ok.1 h
    exact List.forall_mem_cons.2 ⟨MachineState.ofValues_eq_ok hstate, ih hrest⟩

theorem declared_nodup {info : Bytes} (hparse : StackMap.parse info = .ok frames)
    (h : declared pool maxLocals values frames = .ok table) : (table.map (·.1)).Nodup := by
  rw [declared_offsets h]
  exact (StackMap.parse_sorted hparse).imp Nat.ne_of_lt

end FrameTable

/-! ## Bodies with settled frames

The frames that a run settles on are written into the body. A second run reads them back, finds that
they accept all that arrives, and leaves the body alone. -/

/-- Whether a body carries the frames of a table, and checks against them when it is entered
with the given values. -/
def ChecksAgainst (h : Hierarchy) (method : EnclosingMethod) (code : Code) (pool : ConstantPool)
    (values : List SlotType) (table : FrameTable) : Prop :=
  ∃ frameTable frames instructions start,
    Attribute.find? StackMap.tableName code.attributes = some frameTable
      ∧ StackMap.parse frameTable.info = .ok frames
      ∧ FrameTable.declared pool code.maxLocals.toNat values frames = .ok table
      ∧ Instruction.decode code.bytecode = .ok instructions
      ∧ MachineState.ofValues code.maxLocals.toNat values [] = .ok start
      ∧ Pass.Checked { hierarchy := h, pool, method } code.handlers table (some start) instructions

section Settled

variable {h : Hierarchy} {method : EnclosingMethod} {code : Code} {pool pool' : ConstantPool}

/-- A body that checks against its frames is not re-typed. A pass changes nothing then, and so there
is nothing to write. -/
theorem ChecksAgainst.retype {descriptor : MethodDescriptor} {table : FrameTable}
    (hdescriptor : MethodDescriptor.parse method.descriptor = .ok descriptor)
    (hchecks : ChecksAgainst h method code pool (method.entryValues descriptor) table) :
    retype h method code pool = .ok none pool := by
  obtain ⟨frameTable, frames, instructions, start, hfind, hparse, hdeclared, hdecode, hstart,
    hchecked⟩ := hchecks
  have hrun := (Pass.run_eq_self_iff (FrameTable.declared_nodup hparse hdeclared)).2 hchecked
  have hanalysis : Analysis h method code pool (method.entryValues descriptor) frameTable.info
      table table :=
    ⟨frames, instructions, start, hparse, hdeclared, hdecode, hstart, Pass.settle_of_fixed hrun⟩
  exact retype_eq_ok.2 (.inr ⟨frameTable, descriptor, table, table, hfind, hdescriptor, hanalysis,
    .inl ⟨rfl, rfl, rfl⟩⟩)

/-- A body whose declared frames are settled checks against them. -/
theorem Analysis.checksAgainst {values : List SlotType} {frameTable : Attribute}
    {table : FrameTable}
    (hfind : Attribute.find? StackMap.tableName code.attributes = some frameTable)
    (hanalysis : Analysis h method code pool values frameTable.info table table) :
    ChecksAgainst h method code pool values table := by
  obtain ⟨frames, instructions, start, hparse, hdeclared, hdecode, hstart, hsettle⟩ := hanalysis
  have hnodup := FrameTable.declared_nodup hparse hdeclared
  have hrun := (Pass.settle_run hnodup hsettle).2
  exact ⟨frameTable, frames, instructions, start, hfind, hparse, hdeclared, hdecode, hstart,
    (Pass.run_eq_self_iff hnodup).1 hrun⟩

/-- A body that gets the frames that the passes settle on checks against them. They are read back
from the table that has been written, in the pool behind it. -/
theorem Analysis.checksAgainst_written {values : List SlotType} {info written : Bytes}
    {declared settled : FrameTable} (hpool : Reachable pool)
    (hanalysis : Analysis h method code pool values info declared settled)
    (hwritten : settled.bytes values pool = .ok written pool') :
    ChecksAgainst h method (withFrames code written) pool' values settled := by
  obtain ⟨frames, instructions, start, hparse, hdeclared, hdecode, hstart, hsettle⟩ := hanalysis
  have hnodup := FrameTable.declared_nodup hparse hdeclared
  obtain ⟨hmoved, hrun⟩ := Pass.settle_run hnodup hsettle
  have hpaired := (FrameTable.declared_paired hdeclared).widened hmoved.widensTo
  obtain ⟨frames', hparse', hdeclared'⟩ := FrameTable.bytes_spec hpool hpaired hwritten
  have hgrown := (FrameTable.appends_bytes values settled).grown_of_ok hwritten
  have hrun' := Pass.run_grown hgrown hrun
  have hchecked := (Pass.run_eq_self_iff (FrameTable.declared_nodup hparse' hdeclared')).1 hrun'
  exact ⟨{ name := StackMap.tableName, info := written }, frames', instructions, start,
    Attribute.find?_set _ _ _, hparse', hdeclared', hdecode, hstart, hchecked⟩

/-- **Re-typing once is enough.** A second run on the body and the pool that the first one left
finds nothing to do. If the body has frames at all, then it carries those that the analysis
ended with, and no state that arrives anywhere is one that its frames do not accept. -/
theorem retype_retype {result : Option Code} (hpool : Reachable pool)
    (hrun : retype h method code pool = .ok result pool') :
    retype h method (result.getD code) pool' = .ok none pool'
      ∧ ∀ frameTable, Attribute.find? StackMap.tableName code.attributes = some frameTable →
        ∃ descriptor declared settled,
          MethodDescriptor.parse method.descriptor = .ok descriptor
            ∧ Analysis h method code pool (method.entryValues descriptor) frameTable.info declared
              settled
            ∧ ChecksAgainst h method (result.getD code) pool' (method.entryValues descriptor)
              settled := by
  rcases retype_eq_ok.1 hrun with ⟨hnone, rfl, rfl⟩ |
    ⟨frameTable, descriptor, declared, settled, hfind, hdescriptor, hanalysis, hend⟩
  · refine ⟨hrun, fun frameTable hfind => ?_⟩
    rw [hnone] at hfind
    cases hfind
  · have hchecks : ChecksAgainst h method (result.getD code) pool' (method.entryValues descriptor)
        settled := by
      rcases hend with ⟨rfl, rfl, rfl⟩ | ⟨_, info, hinfo, rfl⟩
      · exact hanalysis.checksAgainst hfind
      · exact hanalysis.checksAgainst_written hpool hinfo
    refine ⟨hchecks.retype hdescriptor, fun frameTable' hfind' => ?_⟩
    rw [hfind] at hfind'
    cases hfind'
    exact ⟨descriptor, declared, settled, hdescriptor, hanalysis, hchecks⟩

/-- A jump brings an object of class `B` to a frame that declares one of class `A`; the frame
widens to `java/lang/Object`, whose name the pool did not have. -/
theorem retype_retype_jump :
    let h : Hierarchy := fun _ => some (.subclass (some objectName))
    let method : EnclosingMethod :=
      { owner := "C", name := "f", descriptor := "(LB;)V", isStatic := true }
    let code : Code :=
      { maxStack := 0, maxLocals := 1, bytecode := [0xa7, 0, 3, 0xb1]
        attributes := [{ name := StackMap.tableName,
                         info := [0, 1, 255, 0, 3, 0, 1, 7, 0, 2, 0, 0] }] }
    let pool := after (intern (.classInfo 1)) (after (intern (.utf8 "A")) empty)
    ∃ code' pool', Reachable pool ∧ retype h method code pool = .ok (some code') pool'
      ∧ retype h method code' pool' = .ok none pool' := by
  intro h method code pool
  have hpool : Reachable pool := (Reachable.empty.intern _ (by decide)).intern _ (by decide)
  -- The first run is evaluated. It widens the frame behind the jump.
  have hwrites : (do
      let result ← ((retype h method code).on pool).toOption
      return result.1.isSome) = some true := by
    decide +kernel
  obtain ⟨⟨found, pool'⟩, hrun, hsome⟩ := toOption_bind_eq_some.1 hwrites
  obtain ⟨code', rfl⟩ := Option.isSome_iff_exists.1 (Option.some.inj hsome)
  have hrun := Interning.on_eq_ok.1 hrun
  exact ⟨code', pool', hpool, hrun, (retype_retype hpool hrun).1⟩

end Settled
end ClassLoom.Typing
