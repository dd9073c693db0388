import ClassLoom.Proofs.Typing.Retype
import ClassLoom.Proofs.Weave.Spill
import ClassLoom.Weave.CallRedirection

/-!
# Emitted call sites

What is emitted for a call site consists of moves of operands and of the call itself. The
patch of a body is made of what is emitted for its sites one after the other, and the patched
body has room for the local variables that each of them takes.

* `emit_eq_ok`: the parts of what is emitted;
* `redirectCode_eq_ok`: what redirecting does to a body;
* `redirectCode_fits`: the room for local variables.
-/

namespace ClassLoom

open ConstantPool
open Interning (Appends)

namespace CallSite

/-! ## Parts

What is emitted for a site comes in two parts, each of which interns what it needs and is read in a
pool that has only grown since. -/

/-- Whether an instruction makes a call, in a class with the given pool. -/
def Invokes (pool : ConstantPool) (i : Instruction) (call : Invocation) : Prop :=
  ∃ index, pool.getMember index = .ok {
      kind := if call.ofInterface then .interfaceMethod else .method
      owner := call.owner, name := call.name, descriptor := call.descriptor }
    ∧ (call.opcode ≠ Opcode.invokeInterface → i = .withWord call.opcode index)
    ∧ (call.opcode = Opcode.invokeInterface → ∃ d, MethodDescriptor.parse call.descriptor = .ok d
      ∧ 1 + d.paramSlots < 256 ∧ i = .invokeInterface index (UInt8.ofNat (1 + d.paramSlots)))

/-- A call is made in a grown pool as before: its index names the same method. -/
theorem Invokes.grown {pool pool' : ConstantPool} {i : Instruction} {call : Invocation}
    (h : Invokes pool i call) (hgrown : Grown pool pool') : Invokes pool' i call := by
  obtain ⟨index, hmember, hrest⟩ := h
  exact ⟨index, hgrown.getMember hmember, hrest⟩

/-- Emitting a call only adds to the pool. -/
theorem appends_invoke (call : Invocation) : Appends (invoke call) := by
  refine (appends_internMember _).bind fun target => ?_
  split
  · exact (Appends.lift _).bind fun _ => .pure _
  · exact .pure _

/-- **The call that is emitted** is the one of the site. A call on an interface also counts the
slots of its operands, which fails where they do not fit a byte. -/
theorem invoke_spec {call : Invocation} {start last : ConstantPool} {i : Instruction}
    (hstart : Reachable start) (h : invoke call start = .ok i last) : Invokes last i call := by
  obtain ⟨index, mid, hindex, h⟩ := Interning.bind_eq_ok.1 h
  have hmember := internMember_spec hstart hindex
  -- Only calls on interfaces have operands counted in them; all others are an opcode and an index.
  by_cases hinterface : call.opcode = Opcode.invokeInterface
  · rw [if_pos hinterface] at h
    obtain ⟨slots, hslots, h⟩ := Interning.lift_bind_eq_ok.1 h
    obtain ⟨rfl, rfl⟩ := Interning.pure_eq_ok.1 h
    obtain ⟨d, hd, hslots⟩ := bind_eq_ok.1 hslots
    refine ⟨index, hmember, fun hother => absurd hinterface hother, fun _ => ⟨d, hd, ?_⟩⟩
    split at hslots
    · next hlt =>
      cases hslots
      exact ⟨hlt, rfl⟩
    · cases hslots
  · rw [if_neg hinterface] at h
    obtain ⟨rfl, rfl⟩ := Interning.pure_eq_ok.1 h
    exact ⟨index, hmember, fun _ => rfl, fun hcall => absurd hcall hinterface⟩

/-- Emitting the moves of operands only adds to the pool. -/
theorem appends_spill (site : CallSite) (base : UInt16) : Appends (spill site base) := by
  unfold spill
  cases site.receiverCast with
  | none =>
    refine (Appends.lift _).bind fun _ => (Appends.pure _).bind fun _ => ?_
    exact (Appends.mapM fun x _ => Machine.appends_loadArg x).bind fun _ => .pure _
  | some cast =>
    refine (Appends.lift _).bind fun _ => (Appends.lift _).bind fun _ => ?_
    refine (Machine.appends_reloadReceiver base cast).bind fun _ => ?_
    exact (Appends.mapM fun x _ => Machine.appends_loadArg x).bind fun _ => .pure _

/-- The moves, where there are any, only add to the pool. -/
theorem appends_moves (site : CallSite) (base : UInt16) :
    Appends (if site.needsSpill then spill site base else pure ([], 0)) := by
  split
  · exact appends_spill site base
  · exact .pure _

/-- Both cases of emitting in one equation: moves if operands need a cast, none otherwise, and the
call behind them. -/
theorem emit_eq (site : CallSite) (base : UInt16) :
    emit site base = (do
      let moved ← (if site.needsSpill then spill site base else pure ([], 0))
      let call ← invoke site.call
      if moved.2 < 65536 then return (moved.1 ++ [call], UInt16.ofNat moved.2)
      else throw .localSlotOverflow) := by
  unfold emit
  cases site.needsSpill <;> rfl

/-- What is emitted for a site: moves of the operands, if some need a cast, and the call. The slots
that it uses fit a word. -/
theorem emit_eq_ok {site : CallSite} {base width : UInt16} {emitted : List Instruction}
    {start last : ConstantPool} (h : emit site base start = .ok (emitted, width) last) :
    ∃ moves slots mid call,
      (if site.needsSpill then spill site base else pure ([], 0)) start = .ok (moves, slots) mid
        ∧ invoke site.call mid = .ok call last ∧ emitted = moves ++ [call]
        ∧ width.toNat = slots := by
  rw [emit_eq] at h
  obtain ⟨⟨moves, slots⟩, mid, hmoves, h⟩ := Interning.bind_eq_ok.1 h
  obtain ⟨call, mid', hcall, h⟩ := Interning.bind_eq_ok.1 h
  split at h
  · next hlt =>
    obtain ⟨hpair, rfl⟩ := Interning.pure_eq_ok.1 h
    cases hpair
    refine ⟨moves, slots, mid, call, hmoves, hcall, rfl, ?_⟩
    rw [UInt16.toNat_ofNat']
    exact Nat.mod_eq_of_lt hlt
  · cases h

/-- Emitting for a site only adds to the pool. -/
theorem appends_emit (site : CallSite) (base : UInt16) : Appends (emit site base) := by
  rw [emit_eq]
  refine (appends_moves site base).bind fun moved => ?_
  refine (appends_invoke site.call).bind fun call => ?_
  split
  · exact .pure _
  · exact .throw _

/-! ## Patches

A patch is made site by site in one pool. For a site the pools before and after its own emission are
what counts; what others intern later hides nothing. -/

section Patch

variable {base : UInt16} {start last : ConstantPool}

/-- Whether something is emitted for a site between two pools. -/
def EmittedBetween (site : CallSite) (base : UInt16) (emitted : List Instruction)
    (width : UInt16) (start last : ConstantPool) : Prop :=
  ∃ before after, Grown start before ∧ Reachable before
    ∧ emit site base before = .ok (emitted, width) after ∧ Grown after last

/-- One site in a patch: what is emitted for it stays available, and the room for local variables
covers what it uses. -/
theorem patchOne_eq_ok {site : CallSite} {patch patch' : CodePatch} {width width' : UInt16}
    (h : patchOne base (patch, width) site start = .ok (patch', width') last) :
    ∃ emitted slots mid, emit site base start = .ok (emitted, slots) mid ∧ Grown mid last
      ∧ width' = max width slots := by
  obtain ⟨⟨emitted, slots⟩, mid, hemit, h⟩ := Interning.bind_eq_ok.1 h
  refine ⟨emitted, slots, mid, hemit, ?_⟩
  cases hsite : site.newSite with
  | none =>
    simp only [hsite] at h
    obtain ⟨hpair, rfl⟩ := Interning.pure_eq_ok.1 h
    cases hpair
    exact ⟨Grown.refl _, rfl⟩
  | some new =>
    -- A constructor call also replaces the `new` that made its object, by one more entry in the
    -- pool.
    obtain ⟨pc, name⟩ := new
    simp only [hsite] at h
    obtain ⟨index, mid', hindex, h⟩ := Interning.bind_eq_ok.1 h
    obtain ⟨hpair, rfl⟩ := Interning.pure_eq_ok.1 h
    cases hpair
    exact ⟨(appends_internClass name).grown_of_ok hindex, rfl⟩

/-- Patching for a site only adds to the pool. -/
theorem appends_patchOne (base : UInt16) (state : CodePatch × UInt16) (site : CallSite) :
    Appends (patchOne base state site) := by
  refine (appends_emit site base).bind fun emitted => ?_
  cases site.newSite with
  | none => exact .pure _
  | some new => exact (appends_internClass new.2).bind fun _ => .pure _

/-- The patch of a body leaves room for each site: the width that comes out is at least that of
every site on the way, as it only grows. -/
theorem emittedBetween_of_foldlM {sites : List CallSite} {patch patch' : CodePatch}
    {width width' : UInt16} (hstart : Reachable start)
    (h : sites.foldlM (patchOne base) (patch, width) start = .ok (patch', width') last) :
    Grown start last ∧ width ≤ width' ∧ ∀ site ∈ sites, ∃ emitted slots,
      EmittedBetween site base emitted slots start last ∧ slots ≤ width' := by
  induction sites generalizing patch width start with
  | nil =>
    obtain ⟨hpair, rfl⟩ := Interning.pure_eq_ok.1 h
    cases hpair
    exact ⟨Grown.refl _, UInt16.le_refl _, by simp⟩
  | cons site sites ih =>
    rw [List.foldlM_cons] at h
    obtain ⟨⟨patch'', width''⟩, mid, hone, h⟩ := Interning.bind_eq_ok.1 h
    obtain ⟨emitted, slots, mid', hemit, hgrown, rfl⟩ := patchOne_eq_ok hone
    have hmid := (appends_patchOne base _ site).reachable_of_ok hstart hone
    obtain ⟨hlast, hwidth, hrest⟩ := ih hmid h
    have hgrownMid := ((appends_emit site base).grown_of_ok hemit).trans hgrown
    -- The width is the largest so far, and grows no less for the sites behind.
    have hmax : width ≤ width' ∧ slots ≤ width' := by
      rw [UInt16.le_iff_toNat_le] at hwidth ⊢
      rw [UInt16.le_iff_toNat_le]
      simp only [max] at hwidth
      split at hwidth
      · next hle =>
        rw [UInt16.le_iff_toNat_le] at hle
        omega
      · next hle =>
        rw [UInt16.le_iff_toNat_le] at hle
        omega
    refine ⟨hgrownMid.trans hlast, hmax.1, fun site' hsite' => ?_⟩
    rcases List.mem_cons.1 hsite' with rfl | hsite'
    · exact ⟨emitted, slots, ⟨start, mid', Grown.refl _, hstart, hemit, hgrown.trans hlast⟩,
        hmax.2⟩
    · obtain ⟨emitted', slots', ⟨before, after, hbefore, hreachable, hemit', hafter⟩, hle⟩ :=
        hrest site' hsite'
      exact ⟨emitted', slots',
        ⟨before, after, hgrownMid.trans hbefore, hreachable, hemit', hafter⟩, hle⟩

end Patch
end CallSite

namespace Weave

section Body

variable {s : Surroundings} {className : String} {m : Member} {code redirected : Code}
  {sites : List CallSite} {start last : ConstantPool}

/-- The steps of redirecting the calls of a body: it is patched, gets room for local variables, and
is re-typed. The last step may leave the body as it was, or give it frames. -/
theorem redirectCode_eq_ok
    (h : redirectCode s className m code sites start = .ok redirected last) :
    ∃ patch width patched mid,
      CallSite.patchFor code.maxLocals sites start = .ok (patch, width) mid
        ∧ patch.apply code = .ok patched ∧ Grown mid last
        ∧ code.maxLocals.toNat + width.toNat ≤ 65535
        ∧ (redirected = { patched with maxLocals := code.maxLocals + width }
          ∨ ∃ info, redirected
            = Typing.withFrames { patched with maxLocals := code.maxLocals + width } info) := by
  obtain ⟨⟨patch, width⟩, mid, hpatch, h⟩ := Interning.bind_eq_ok.1 h
  obtain ⟨patched, happly, h⟩ := Interning.lift_bind_eq_ok.1 h
  simp only at h
  split at h
  · cases h
  · next hfits =>
    obtain ⟨retyped, mid', hretype, h⟩ := Interning.bind_eq_ok.1 h
    obtain ⟨rfl, rfl⟩ := Interning.pure_eq_ok.1 h
    exact ⟨patch, width, patched, mid, hpatch, happly, Typing.appends_retype.grown_of_ok hretype,
      Nat.le_of_not_lt hfits, Typing.reframed_of_retype hretype⟩

/-- **A body with redirected calls has room** for the local variables of each site, behind those
that the method had. -/
theorem redirectCode_fits (hstart : Reachable start)
    (h : redirectCode s className m code sites start = .ok redirected last) :
    ∀ site ∈ sites, ∃ emitted width,
      CallSite.EmittedBetween site code.maxLocals emitted width start last
        ∧ code.maxLocals.toNat + width.toNat ≤ redirected.maxLocals.toNat := by
  obtain ⟨patch, width, patched, mid, hpatch, _, hgrown, hfits, hend⟩ := redirectCode_eq_ok h
  obtain ⟨_, _, hsites⟩ := CallSite.emittedBetween_of_foldlM hstart hpatch
  -- Frames leave the number of local variables as it is.
  have hlocals : redirected.maxLocals = code.maxLocals + width := by
    rcases hend with rfl | ⟨_, rfl⟩ <;> rfl
  intro site hsite
  obtain ⟨emitted, slots, ⟨before, after, hbefore, hreachable, hemit, hafter⟩, hle⟩ :=
    hsites site hsite
  refine ⟨emitted, slots, ⟨before, after, hbefore, hreachable, hemit, hafter.trans hgrown⟩, ?_⟩
  rw [UInt16.le_iff_toNat_le] at hle
  rw [hlocals, UInt16.toNat_add]
  omega

end Body
end Weave
end ClassLoom
