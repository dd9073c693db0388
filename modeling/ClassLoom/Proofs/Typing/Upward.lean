import ClassLoom.Proofs.Typing.Settled

/-!
# Frames take what they declared

Assignability is not transitive in general: classes of which nothing is known are trusted, and
chains that are too long count as unknown. What a slot becomes by moving is above what it was in
a narrower sense, which does compose (`SlotType.Above`): the unused slot, `java/lang/Object`, any
reference for `null`, or a class on the chain of superclasses. So the frames that re-typing ends
with take whatever the declared ones take.

* `SlotType.above_of_moves`, `SlotType.Above.isAssignable`: slots only move up, and what is above
  a type takes it;
* `FrameTable.relaxes_of_moved`: what moves make of a table;
* `retypeInPlace_relaxes`: what re-typing makes of a body.
-/

namespace ClassLoom.Typing

open ConstantPool

variable {h : Hierarchy}

/-! ## Slots

Assignability does not compose, since a class of which nothing is known is trusted to be whatever is
asked for. Merging only goes along chains of superclasses, and of those `Above` is made: it
composes, and implies assignability. -/

namespace SlotType

/-- Whether a type is above another one, so that it can have come from it by moves. -/
inductive Above (h : Hierarchy) : SlotType → SlotType → Prop where
  | same (t : SlotType) : Above h t t
  | unused (t : SlotType) : Above h t top
  | null (name : String) : Above h null (reference name)
  | object (name : String) : Above h (reference name) (reference objectName)
  | superclass {name target : String} (hname : ArrayName.component? name = none)
      (htarget : ArrayName.component? target = none) (hchain : Hierarchy.OnChain h name target) :
      Above h (reference name) (reference target)

/-- What is above what is above a type is above it. Where a class comes last the two chains are put
together. -/
theorem Above.trans {a b c : SlotType} (hab : Above h a b) (hbc : Above h b c) : Above h a c := by
  -- The cases are those of the later step; the earlier one can only end where that one starts.
  cases hbc with
  | same => exact hab
  | unused => exact .unused a
  | null name =>
    cases hab with
    | same => exact .null name
  | object name =>
    cases hab with
    | same => exact .object name
    | null => exact .null objectName
    | object => exact .object _
    | superclass => exact .object _
  | superclass hname htarget hchain =>
    cases hab with
    | same => exact .superclass hname htarget hchain
    | null => exact .null _
    | object name =>
      obtain rfl := hchain.eq_object
      exact .object name
    | superclass hname' _ hchain' => exact .superclass hname' htarget (hchain'.trans hchain)

/-- A type is assignable to what is above it. -/
theorem Above.isAssignable {old new : SlotType} (habove : Above h old new) :
    isAssignable h old new = true := by
  cases habove with
  | same =>
    cases old with
    | reference name =>
      show h.isSubclass name name = true
      unfold Hierarchy.isSubclass
      simp
    | _ => simp [SlotType.isAssignable]
  | unused => cases old <;> rfl
  | null name => rfl
  | object name => exact Hierarchy.isSubclass_object name
  | superclass hname htarget hchain => exact Hierarchy.isSubclass_of_onChain hname htarget hchain

/-- The nearest common superclass is above the declared class, since it was found on its chain. -/
theorem above_commonSuperclass {declared actual : String} :
    Above h (reference declared) (reference (h.commonSuperclass declared actual)) := by
  unfold Hierarchy.commonSuperclass
  split
  · exact .object declared
  · next hplain =>
    simp only [Bool.or_eq_true, not_or, Bool.not_eq_true, ArrayName.isArray,
      Option.isSome_eq_false_iff, Option.isNone_iff_eq_none] at hplain
    have hclimb := Hierarchy.climb_onChain (h := h) chainLimit declared actual
    generalize h.climb chainLimit declared actual = target at hclimb ⊢
    -- A climb that does not end at the root has ended on the chain of the declared class.
    by_cases hobject : target = objectName
    · rw [hobject]
      exact .object declared
    · obtain habsurd | ⟨hbelow, hchain⟩ := hclimb
      · exact absurd habsurd hobject
      · exact .superclass hplain.1
          (Hierarchy.component?_of_isSubclass hplain.2 hobject hbelow) hchain

/-- **Slots only move up.** A slot that does not take its value becomes the nearest common
superclass, or is not used any more. -/
theorem above_of_moves {old new : SlotType} (hmove : Moves h old new) : Above h old new := by
  obtain ⟨value, hno, rfl⟩ := hmove
  unfold widen
  rw [hno, if_neg Bool.false_ne_true]
  cases old with
  | reference declared =>
    cases value with
    | reference actual => exact above_commonSuperclass
    | _ => exact .unused _
  | null =>
    cases value with
    | reference name => exact .null name
    | _ => exact .unused _
  | _ => exact .unused _

end SlotType

/-! ## States and tables

A frame whose slots are above those of another takes whatever the other takes, since assignability
goes up along the chain. -/

/-- Whether the slots of a state are above those of another one, and no stack slot has lost its
use. -/
structure MachineState.Above (h : Hierarchy) (old new : MachineState) : Prop where
  locals : List.Forall₂ (SlotType.Above h) old.locals new.locals
  stack : List.Forall₂ (fun s t => SlotType.Above h s t ∧ (t = .top → s = .top)) old.stack new.stack

namespace MachineState

theorem Above.refl (s : MachineState) : Above h s s where
  locals := List.forall₂_same.2 fun t _ => .same t
  stack := List.forall₂_same.2 fun t _ => ⟨.same t, id⟩

/-- So it is with states. -/
theorem Above.trans {a b c : MachineState} (hab : Above h a b) (hbc : Above h b c) :
    Above h a c where
  locals := forall₂_trans (fun _ _ _ => .trans) hab.locals hbc.locals
  stack := forall₂_trans
    (fun _ _ _ hst htu => ⟨hst.1.trans htu.1, fun htop => hst.2 (htu.2 htop)⟩) hab.stack hbc.stack

/-- A state of which one slot moves goes up. -/
theorem above_of_moves {old new : MachineState} (hmove : Moves h old new) : Above h old new := by
  cases hmove with
  | ofLocals hmove =>
    exact ⟨hmove.forall₂ .same fun _ _ => SlotType.above_of_moves, (Above.refl _).stack⟩
  | ofStack hmove =>
    refine ⟨(Above.refl _).locals, hmove.forall₂ (fun t => ⟨.same t, id⟩) fun _ _ hslot => ?_⟩
    exact ⟨SlotType.above_of_moves hslot.1, fun htop => absurd htop hslot.2⟩

/-- Whether a frame takes whatever another one takes, slot by slot, and has lost the use of no
stack slot. -/
structure Relaxes (h : Hierarchy) (declared settled : MachineState) : Prop where
  accepts : Accepts h settled declared
  usable : List.Forall₂ (fun old new => new = .top → old = .top) declared.stack settled.stack

/-- A state that is above another takes what the other takes. -/
theorem Above.relaxes {old new : MachineState} (habove : Above h old new) : Relaxes h old new where
  accepts := {
    locals := List.Forall₂.flip (habove.locals.imp fun _ _ => SlotType.Above.isAssignable)
    stack := List.Forall₂.flip (habove.stack.imp fun _ _ hslot => hslot.1.isAssignable) }
  usable := habove.stack.imp fun _ _ hslot => hslot.2

end MachineState

/-- Whether a table has the frames of another one, each at its offset and as deep as it was, but
relaxed. -/
def FrameTable.Relaxes (h : Hierarchy) (declared settled : FrameTable) : Prop :=
  List.Forall₂ (fun old new => old.1 = new.1 ∧ MachineState.Relaxes h old.2 new.2) declared settled

/-- **Moves relax the frames of a table.** -/
theorem FrameTable.relaxes_of_moved {declared settled : FrameTable}
    (hmoved : Moved h declared settled) : Relaxes h declared settled :=
  (hmoved.forall₂ .refl (fun _ _ _ => .trans) fun _ _ => MachineState.above_of_moves).imp
    fun _ _ hframe => ⟨hframe.1, hframe.2.relaxes⟩

/-! ## Bodies

Re-typing changes a body in one place, which is the payload of its first table of frames. -/

/-- Setting a payload changes the first attribute of the name, and no other one. Its name stays. -/
theorem set_of_find? {name : String} {attributes : List Attribute} {a : Attribute} (info : Bytes)
    (hfind : Attribute.find? name attributes = some a) :
    ∃ front back, attributes = front ++ a :: back ∧ (∀ b ∈ front, b.name ≠ name) ∧ a.name = name
      ∧ Attribute.set name info attributes = front ++ { a with info } :: back := by
  obtain ⟨hname, front, back, rfl, hfront⟩ := List.find?_eq_some_iff_append.1 hfind
  replace hname : a.name = name := by simpa using hname
  replace hfront : ∀ b ∈ front, b.name ≠ name := by simpa using hfront
  refine ⟨front, back, rfl, hfront, hname, ?_⟩
  clear hfind
  induction front with
  | nil => exact if_pos hname
  | cons b front ih =>
    obtain ⟨hb, hfront⟩ := List.forall_mem_cons.1 hfront
    rw [List.cons_append, Attribute.set, if_neg hb, ih hfront, List.cons_append]

/-- What re-typing may make of a body: nothing, or one with another payload of its first table of
frames. -/
inductive Reframes (code : Code) : Code → Prop where
  | kept : Reframes code code
  | reframed (front back : List Attribute) (frameTable : Attribute) (info : Bytes)
      (hattributes : code.attributes = front ++ frameTable :: back)
      (hfirst : ∀ a ∈ front, a.name ≠ StackMap.tableName)
      (hname : frameTable.name = StackMap.tableName) :
    Reframes code { code with attributes := front ++ { frameTable with info } :: back }

/-- Giving a body new frames is all that re-typing does to it. -/
theorem reframes_withFrames {code : Code} {frameTable : Attribute} (info : Bytes)
    (hfind : Attribute.find? StackMap.tableName code.attributes = some frameTable) :
    Reframes code (withFrames code info) := by
  obtain ⟨front, back, hattributes, hfirst, hname, hset⟩ := set_of_find? info hfind
  unfold withFrames
  rw [hset]
  exact .reframed front back frameTable info hattributes hfirst hname

/-- The frames that an analysis ends with have come from the declared ones by moves. -/
theorem Analysis.relaxes {method : EnclosingMethod} {code : Code} {pool : ConstantPool}
    {values : List SlotType} {info : Bytes} {declared settled : FrameTable}
    (hanalysis : Analysis h method code pool values info declared settled) :
    FrameTable.Relaxes h declared settled := by
  obtain ⟨frames, instructions, start, hparse, hdeclared, _, _, hsettle⟩ := hanalysis
  have hnodup := FrameTable.declared_nodup hparse hdeclared
  exact FrameTable.relaxes_of_moved (Pass.settle_run hnodup hsettle).1

/-- Re-typing of a body in its place: tells whether the body has got new frames. -/
def retypeInPlace (h : Hierarchy) (method : EnclosingMethod) :
    EStateM ClassError (Code × ConstantPool) Bool := fun (code, pool) =>
  match retype h method code pool with
  | .ok result pool' => .ok result.isSome (result.getD code, pool')
  | .error e pool' => .error e (code, pool')

section InPlace

variable {method : EnclosingMethod} {code code' : Code} {pool pool' : ConstantPool}

/-- Re-typing in place is re-typing, with the old body where it gives none. The answer is whether
there was a new body. -/
theorem retypeInPlace_eq_ok {changed : Bool} :
    retypeInPlace h method (code, pool) = .ok changed (code', pool')
      ↔ ∃ result, retype h method code pool = .ok result pool' ∧ result.isSome = changed
        ∧ result.getD code = code' := by
  cases hrun : retype h method code pool with
  | ok result pool'' =>
    simp only [retypeInPlace, hrun, EStateM.Result.ok.injEq, Prod.mk.injEq]
    constructor
    · rintro ⟨hchanged, hcode, rfl⟩
      exact ⟨result, ⟨rfl, rfl⟩, hchanged, hcode⟩
    · rintro ⟨_, ⟨rfl, rfl⟩, hchanged, hcode⟩
      exact ⟨hchanged, hcode, rfl⟩
  | error e pool'' => simp [retypeInPlace, hrun]

/-- It fails where re-typing does, and leaves the body alone. -/
theorem retypeInPlace_eq_error {e : ClassError} :
    retypeInPlace h method (code, pool) = .error e (code', pool')
      ↔ retype h method code pool = .error e pool' ∧ code = code' := by
  cases hrun : retype h method code pool with
  | ok result pool'' => simp [retypeInPlace, hrun]
  | error e' pool'' =>
    simp only [retypeInPlace, hrun, EStateM.Result.error.injEq, Prod.mk.injEq]
    constructor
    · rintro ⟨rfl, hcode, rfl⟩
      exact ⟨⟨rfl, rfl⟩, hcode⟩
    · rintro ⟨⟨rfl, rfl⟩, hcode⟩
      exact ⟨rfl, hcode, rfl⟩

end InPlace

/-- **Re-typing only widens frames.** The frames that it ends with stand at the offsets of the
declared ones, take whatever these take, and have lost the use of no stack slot; in a pool that
can be, the body has them afterwards. Nothing else about the body changes and the pool only
grows; without new frames nothing changes at all, and after an error the body is as it was. -/
theorem retypeInPlace_relaxes (h : Hierarchy) (method : EnclosingMethod) (code : Code)
    (pool : ConstantPool) :
    (∀ changed code' pool', retypeInPlace h method (code, pool) = .ok changed (code', pool') →
      Grown pool pool' ∧ Reframes code code' ∧ (changed = false → code' = code ∧ pool' = pool)
        ∧ ∀ frameTable, Attribute.find? StackMap.tableName code.attributes = some frameTable →
          ∃ descriptor declared settled,
            MethodDescriptor.parse method.descriptor = .ok descriptor
              ∧ Analysis h method code pool (method.entryValues descriptor) frameTable.info declared
                settled
              ∧ FrameTable.Relaxes h declared settled
              ∧ (Reachable pool →
                ChecksAgainst h method code' pool' (method.entryValues descriptor) settled))
    ∧ ∀ e code' pool', retypeInPlace h method (code, pool) = .error e (code', pool') →
      code' = code ∧ Grown pool pool' := by
  constructor
  · intro changed code' pool' hplace
    obtain ⟨result, hrun, rfl, rfl⟩ := retypeInPlace_eq_ok.1 hplace
    refine ⟨appends_retype.grown_of_ok hrun, ?_⟩
    rcases retype_eq_ok.1 hrun with ⟨hnone, rfl, rfl⟩ |
      ⟨frameTable, descriptor, declared, settled, hfind, hdescriptor, hanalysis, hend⟩
    · refine ⟨.kept, fun _ => ⟨rfl, rfl⟩, fun frameTable hfind => ?_⟩
      rw [hnone] at hfind
      cases hfind
    -- What it ends with is the old body, or that with the settled frames.
    · have hbody : Reframes code (result.getD code)
          ∧ (result.isSome = false → result.getD code = code ∧ pool' = pool) := by
        rcases hend with ⟨_, rfl, rfl⟩ | ⟨_, info, _, rfl⟩
        · exact ⟨.kept, fun _ => ⟨rfl, rfl⟩⟩
        · exact ⟨reframes_withFrames info hfind, fun hnone => by cases hnone⟩
      -- The body checks against the settled frames: they are those that it had, or have been
      -- written into it.
      have hchecks : Reachable pool →
          ChecksAgainst h method (result.getD code) pool' (method.entryValues descriptor) settled := by
        intro hpool
        rcases hend with ⟨rfl, rfl, rfl⟩ | ⟨_, info, hinfo, rfl⟩
        · exact hanalysis.checksAgainst hfind
        · exact hanalysis.checksAgainst_written hpool hinfo
      refine ⟨hbody.1, hbody.2, fun frameTable' hfind' => ?_⟩
      rw [hfind] at hfind'
      cases hfind'
      exact ⟨descriptor, declared, settled, hdescriptor, hanalysis, hanalysis.relaxes, hchecks⟩
  · intro e code' pool' hplace
    obtain ⟨hrun, rfl⟩ := retypeInPlace_eq_error.1 hplace
    exact ⟨rfl, appends_retype.grown_of_error hrun⟩

/-- A jump brings an object of class `B` to a frame that declares one of class `A`, and the body
gets a frame that takes both. -/
theorem retypeInPlace_relaxes_jump :
    let h : Hierarchy := fun _ => some (.subclass (some objectName))
    let method : EnclosingMethod :=
      { owner := "C", name := "f", descriptor := "(LB;)V", isStatic := true }
    let code : Code :=
      { maxStack := 0, maxLocals := 1, bytecode := [0xa7, 0, 3, 0xb1]
        attributes := [{ name := StackMap.tableName,
                         info := [0, 1, 255, 0, 3, 0, 1, 7, 0, 2, 0, 0] }] }
    let pool := after (intern (.classInfo 1)) (after (intern (.utf8 "A")) empty)
    ∃ code' pool' descriptor declared settled, Reachable pool
      ∧ retypeInPlace h method (code, pool) = .ok true (code', pool')
      ∧ MethodDescriptor.parse method.descriptor = .ok descriptor
      ∧ FrameTable.Relaxes h declared settled
      ∧ ChecksAgainst h method code' pool' (method.entryValues descriptor) settled := by
  intro h method code pool
  have hpool : Reachable pool := (Reachable.empty.intern _ (by decide)).intern _ (by decide)
  have hwrites : (do
      let result ← ((retype h method code).on pool).toOption
      return result.1.isSome) = some true := by
    decide +kernel
  obtain ⟨⟨found, pool'⟩, hrun, hsome⟩ := toOption_bind_eq_some.1 hwrites
  obtain ⟨code', rfl⟩ := Option.isSome_iff_exists.1 (Option.some.inj hsome)
  -- Replacing in place succeeds with the body that retyping gives.
  have hplace : retypeInPlace h method (code, pool) = .ok true (code', pool') :=
    retypeInPlace_eq_ok.2 ⟨some code', Interning.on_eq_ok.1 hrun, rfl, rfl⟩
  obtain ⟨_, _, _, hframes⟩ := (retypeInPlace_relaxes h method code pool).1 true code' pool' hplace
  obtain ⟨descriptor, declared, settled, hdescriptor, _, hrelaxes, hchecks⟩ := hframes _ rfl
  exact ⟨code', pool', descriptor, declared, settled, hpool, hplace, hdescriptor, hrelaxes,
    hchecks hpool⟩

end ClassLoom.Typing
