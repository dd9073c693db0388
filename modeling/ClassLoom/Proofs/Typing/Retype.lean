import ClassLoom.Proofs.ConstantPool.Interning
import ClassLoom.Typing.Retype

/-!
# The steps of re-typing

Re-typing reads the declared frames and the instructions of a body, lets the passes settle, and
writes new frames if the settled ones differ. All that it changes is the payload of the table
and what the names in it need in the pool.

* `retype_eq_ok`: the steps of a run that succeeds.
-/

namespace ClassLoom.Typing

open ConstantPool
open Interning (Appends)

/-! ## Interning

Frames name classes, which are interned when they are written. All of it only adds to the pool. -/

theorem SlotType.appends_entry (t : SlotType) : Appends t.entry := by
  cases t with
  | reference name => exact (appends_internClass name).bind fun _ => .pure _
  | _ => exact .pure _

theorem FrameTable.appends_entries (values : List SlotType) :
    Appends (values.mapM SlotType.entry) :=
  .mapM fun t _ => SlotType.appends_entry t

/-- The change from one frame to the next only adds to the pool, whichever form it takes. -/
theorem FrameTable.appends_changeTo (previous locals stack : List SlotType) :
    Appends (FrameTable.changeTo previous locals stack) := by
  unfold FrameTable.changeTo
  split
  · exact .pure _
  · exact (SlotType.appends_entry _).bind fun _ => .pure _
  · split
    · exact .pure _
    · split
      · exact (appends_entries _).bind fun _ => .pure _
      · exact (appends_entries _).bind fun _ => .pure _
  · exact (appends_entries _).bind fun _ => (appends_entries _).bind fun _ => .pure _

/-- So do the frames of a table. -/
theorem FrameTable.appends_frames (previous : List SlotType) (table : FrameTable) :
    Appends (FrameTable.frames previous table) := by
  induction table generalizing previous with
  | nil => exact .pure _
  | cons frame rest ih =>
    obtain ⟨offset, state⟩ := frame
    exact (appends_changeTo _ _ _).bind fun _ => (ih _).bind fun _ => .pure _

theorem FrameTable.appends_bytes (previous : List SlotType) (table : FrameTable) :
    Appends (FrameTable.bytes previous table) :=
  (appends_frames _ _).bind fun _ => .lift _

/-! ## Runs

Re-typing has one of three outcomes, which are told here once: there are no frames, there are no
others to write, or others are written. -/

/-- What the analysis of a body gives: the frames that it declares and those that the passes
settle on. -/
def Analysis (h : Hierarchy) (method : EnclosingMethod) (code : Code) (pool : ConstantPool)
    (values : List SlotType) (info : Bytes) (declared settled : FrameTable) : Prop :=
  ∃ frames instructions start,
    StackMap.parse info = .ok frames
      ∧ FrameTable.declared pool code.maxLocals.toNat values frames = .ok declared
      ∧ Instruction.decode code.bytecode = .ok instructions
      ∧ MachineState.ofValues code.maxLocals.toNat values [] = .ok start
      ∧ Pass.settle (Pass.run { hierarchy := h, pool, method } code.handlers instructions start)
          declared = .ok settled

/-- A body with another payload of its table of frames. -/
def withFrames (code : Code) (info : Bytes) : Code :=
  { code with attributes := Attribute.set StackMap.tableName info code.attributes }

section Retype

variable {h : Hierarchy} {method : EnclosingMethod} {code : Code} {pool pool' : ConstantPool}
  {result : Option Code}

/-- **What re-typing does** when it succeeds: nothing to a body without frames, and otherwise
it writes the frames that the passes settle on if they are not the declared ones. -/
theorem retype_eq_ok : retype h method code pool = .ok result pool'
    ↔ (Attribute.find? StackMap.tableName code.attributes = none ∧ result = none ∧ pool = pool')
      ∨ ∃ frameTable descriptor declared settled,
        Attribute.find? StackMap.tableName code.attributes = some frameTable
          ∧ MethodDescriptor.parse method.descriptor = .ok descriptor
          ∧ Analysis h method code pool (method.entryValues descriptor) frameTable.info declared
            settled
          ∧ ((settled = declared ∧ result = none ∧ pool = pool')
            ∨ (settled ≠ declared ∧ ∃ info,
              settled.bytes (method.entryValues descriptor) pool = .ok info pool'
                ∧ result = some (withFrames code info))) := by
  unfold retype
  cases hfind : Attribute.find? StackMap.tableName code.attributes with
  | none =>
    constructor
    · intro hrun
      obtain ⟨rfl, rfl⟩ := Interning.pure_eq_ok.1 hrun
      exact .inl ⟨rfl, rfl, rfl⟩
    · rintro (⟨_, rfl, rfl⟩ | ⟨_, _, _, _, hsome, _⟩)
      · rfl
      · cases hsome
  | some frameTable =>
    constructor
    · intro hrun
      obtain ⟨descriptor, hdescriptor, hrun⟩ := Interning.lift_bind_eq_ok.1 hrun
      obtain ⟨frames, hframes, hrun⟩ := Interning.lift_bind_eq_ok.1 hrun
      have hrun := Interning.get_bind_eq_ok.1 hrun
      obtain ⟨declared, hdeclared, hrun⟩ := Interning.lift_bind_eq_ok.1 hrun
      obtain ⟨instructions, hdecode, hrun⟩ := Interning.lift_bind_eq_ok.1 hrun
      obtain ⟨start, hstart, hrun⟩ := Interning.lift_bind_eq_ok.1 hrun
      obtain ⟨settled, hsettled, hrun⟩ := Interning.lift_bind_eq_ok.1 hrun
      refine .inr ⟨frameTable, descriptor, declared, settled, rfl, hdescriptor,
        ⟨frames, instructions, start, hframes, hdeclared, hdecode, hstart, hsettled⟩, ?_⟩
      split at hrun
      · next hsame =>
        obtain ⟨rfl, rfl⟩ := Interning.pure_eq_ok.1 hrun
        exact .inl ⟨hsame, rfl, rfl⟩
      · next hother =>
        obtain ⟨info, _, hinfo, hrun⟩ := Interning.bind_eq_ok.1 hrun
        obtain ⟨rfl, rfl⟩ := Interning.pure_eq_ok.1 hrun
        exact .inr ⟨hother, info, hinfo, rfl⟩
    · rintro (⟨hnone, _⟩ | ⟨_, descriptor, declared, settled, hsome, hdescriptor,
        ⟨frames, instructions, start, hframes, hdeclared, hdecode, hstart, hsettled⟩, hend⟩)
      · cases hnone
      cases hsome
      refine Interning.lift_bind_eq_ok.2 ⟨descriptor, hdescriptor, ?_⟩
      refine Interning.lift_bind_eq_ok.2 ⟨frames, hframes, Interning.get_bind_eq_ok.2 ?_⟩
      refine Interning.lift_bind_eq_ok.2 ⟨declared, hdeclared, ?_⟩
      refine Interning.lift_bind_eq_ok.2 ⟨instructions, hdecode, ?_⟩
      refine Interning.lift_bind_eq_ok.2 ⟨start, hstart, ?_⟩
      refine Interning.lift_bind_eq_ok.2 ⟨settled, hsettled, ?_⟩
      -- The table is written only if it has changed.
      rcases hend with ⟨rfl, rfl, rfl⟩ | ⟨hother, info, hinfo, rfl⟩
      · rw [if_pos rfl]
        rfl
      · rw [if_neg hother]
        exact Interning.bind_eq_ok.2 ⟨info, pool', hinfo, rfl⟩

/-- Re-typing leaves a body as it is but for its frames. -/
theorem reframed_of_retype (hrun : retype h method code pool = .ok result pool') :
    result.getD code = code ∨ ∃ info, result.getD code = withFrames code info := by
  rcases retype_eq_ok.1 hrun with
    ⟨_, rfl, _⟩ | ⟨_, _, _, _, _, _, _, ⟨_, rfl, _⟩ | ⟨_, info, _, rfl⟩⟩
  · exact .inl rfl
  · exact .inl rfl
  · exact .inr ⟨info, rfl⟩

/-- **Re-typing only adds to the pool**, and to nothing but its end. The classes of new frames and
the name of the table are all that can be new. -/
theorem appends_retype : Appends (retype h method code) := by
  unfold retype
  cases Attribute.find? StackMap.tableName code.attributes with
  | none => exact .pure _
  | some frameTable =>
    refine (Appends.lift _).bind fun descriptor => (Appends.lift _).bind fun frames => ?_
    refine Appends.get.bind fun pool => (Appends.lift _).bind fun declared => ?_
    refine (Appends.lift _).bind fun instructions => (Appends.lift _).bind fun start => ?_
    refine (Appends.lift _).bind fun settled => ?_
    split
    · exact .pure _
    · exact (FrameTable.appends_bytes _ _).bind fun _ => .pure _

end Retype
end ClassLoom.Typing
