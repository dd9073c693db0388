import ClassLoom.Proofs.ConstantPool.Interning
import ClassLoom.Proofs.Weave.OperandMachine
import ClassLoom.Weave.Emission

/-!
# Operands that are moved out of the stack and back

The instructions in front of a redirected call store operands into fresh local variables and
load them again, each with its cast. Run on a stack with the operands on top they give the same
operands in the same order, cast; only the fresh slots are written, and the stack never gets
deeper than it was.

* `run_stores`, `run_loads`: the two halves;
* `run_spill`: all of it.
-/

namespace ClassLoom.Machine

open ConstantPool Interning

variable {V : Type}

/-! ## Slots of operands

Operands that are put into local variables lie one behind the other, each in as many slots as it is
wide. `writeAll` puts them there and `Holds` says that they are there; an operand is not disturbed
by those that are written behind it. -/

/-- Local variables after operands were written from `slot` on, one behind the other. -/
def writeAll (slot : Nat) : List (Operand V) → (Nat → Cell V) → Nat → Cell V
  | [], locals => locals
  | o :: rest, locals => write slot o (writeAll (slot + o.width) rest locals)

/-- Whether local variables hold operands from `slot` on, one behind the other. -/
def Holds (locals : Nat → Cell V) (slot : Nat) : List (Operand V) → Prop
  | [] => True
  | o :: rest => locals slot = .holds o ∧ (o.width = 2 → locals (slot + 1) = .upper)
    ∧ Holds locals (slot + o.width) rest

theorem Operand.width_bounds (o : Operand V) : 1 ≤ o.width ∧ o.width ≤ 2 := by
  unfold Operand.width
  split <;> omega

@[simp] theorem width_castTo (o : Operand V) (cast : Option String) :
    (o.castTo cast).width = o.width := by
  cases cast <;> rfl

@[simp] theorem depth_cons (o : Operand V) (stack : List (Operand V)) :
    depth (o :: stack) = o.width + depth stack := by
  simp [depth]

@[simp] theorem depth_append (front back : List (Operand V)) :
    depth (front ++ back) = depth front + depth back := by
  simp [depth]

@[simp] theorem depth_reverse (stack : List (Operand V)) : depth stack.reverse = depth stack := by
  simp [depth, List.sum_reverse]

/-- Writing an operand changes only the slots of the operand. -/
theorem write_of_outside {slot n : Nat} (o : Operand V) (locals : Nat → Cell V)
    (h : n < slot ∨ slot + o.width ≤ n) : write slot o locals n = locals n := by
  have hwidth := o.width_bounds
  unfold write
  rw [if_neg (by omega), if_neg (by omega)]

/-- Writing several changes only the slots that they take together. -/
theorem writeAll_of_outside {slot n : Nat} {ops : List (Operand V)} (locals : Nat → Cell V)
    (h : n < slot ∨ slot + depth ops ≤ n) : writeAll slot ops locals n = locals n := by
  induction ops generalizing slot with
  | nil => rfl
  | cons o ops ih =>
    rw [depth_cons] at h
    have hwidth := o.width_bounds
    unfold writeAll
    rw [write_of_outside o _ (by omega), ih (by omega)]

/-- What slots hold depends on no slots in front of them. -/
theorem Holds.congr {locals locals' : Nat → Cell V} {slot : Nat} {ops : List (Operand V)}
    (h : Holds locals slot ops) (hsame : ∀ n, slot ≤ n → locals' n = locals n) :
    Holds locals' slot ops := by
  induction ops generalizing slot with
  | nil => trivial
  | cons o ops ih =>
    obtain ⟨hholds, hupper, hrest⟩ := h
    refine ⟨by rw [hsame slot (Nat.le_refl _), hholds], fun hwide => ?_, ?_⟩
    · rw [hsame (slot + 1) (by omega), hupper hwide]
    · exact ih hrest fun n hn => hsame n (by omega)

/-- An operand in front of others is held together with them. -/
theorem holds_write {slot : Nat} {o : Operand V} {ops : List (Operand V)}
    {locals : Nat → Cell V} (h : Holds locals (slot + o.width) ops) :
    Holds (write slot o locals) slot (o :: ops) := by
  refine ⟨by simp [write], fun hwide => by simp [write, hwide], ?_⟩
  exact h.congr fun n hn => write_of_outside o locals (.inr hn)

/-- What has been written is held. -/
theorem holds_writeAll (slot : Nat) (ops : List (Operand V)) (locals : Nat → Cell V) :
    Holds (writeAll slot ops locals) slot ops := by
  induction ops generalizing slot with
  | nil => trivial
  | cons o ops ih => exact holds_write (ih (slot + o.width))

/-! ## Single moves

A store, a load and a cast, each on the state of the machine. All have a limit to keep to: the
number of slots or the depth of the stack. -/

section Moves

variable {pool : ConstantPool} {b : Bounds}

theorem run_nil (s : State V) : run pool b [] s = some s := rfl

theorem run_cons (i : Instruction) (is : List Instruction) (s : State V) :
    run pool b (i :: is) s = (step pool b s i).bind (run pool b is) :=
  List.foldlM_cons ..

theorem run_append (front back : List Instruction) (s : State V) :
    run pool b (front ++ back) s = (run pool b front s).bind (run pool b back) :=
  List.foldlM_append ..

/-- An operand on top of the stack is stored where there is room for it. -/
theorem store_top {o : Operand V} {rest : List (Operand V)} {locals : Nat → Cell V} {slot : Nat}
    (h : slot + o.width ≤ b.slots) :
    store b o.family slot { stack := o :: rest, locals }
      = some { stack := rest, locals := write slot o locals } :=
  if_pos ⟨rfl, h⟩

/-- An operand is loaded from where it is held. Both halves of a wide one are there, and the stack
must have room for it. -/
theorem load_held {o : Operand V} {ops stack : List (Operand V)} {locals : Nat → Cell V}
    {slot : Nat} (hholds : Holds locals slot (o :: ops)) (hslot : slot + o.width ≤ b.slots)
    (hdepth : depth (o :: stack) ≤ b.depth) :
    load b o.family slot { stack, locals } = some { stack := o :: stack, locals } := by
  obtain ⟨hlow, hupper, _⟩ := hholds
  have hwide : o.width = 2 → (locals (slot + 1)).isUpper = true := by
    intro hwide
    rw [hupper hwide]
    rfl
  unfold load
  simp only [hlow]
  rw [if_pos ⟨trivial, hslot, hwide⟩]
  unfold push
  rw [if_pos hdepth]

/-- A reference on top of the stack is cast. What it refers to stays the same. -/
theorem cast_top {o : Operand V} {stack : List (Operand V)} {locals : Nat → Cell V}
    (h : o.family = referenceFamily) (name : String) :
    cast name { stack := o :: stack, locals }
      = some { stack := o.castTo (some name) :: stack, locals } :=
  if_pos h

end Moves

/-! ## Moves of arguments

Arguments are popped from the last one on, and loaded again from the first one on. Both are
inductions over the arguments, and the slots of each are told by the widths of those before it. -/

/-- Whether operands are of the families of the arguments of a call. -/
abbrev Fits (args : List (FieldType × Option String)) (ops : List (Operand V)) : Prop :=
  List.Forall₂ (fun a o => o.family = Instruction.family a.1) args ops

/-- The family of an operand tells how wide it is. -/
theorem width_eq_of_family {o : Operand V} {type : FieldType}
    (h : o.family = Instruction.family type) : o.width = type.width := by
  unfold Operand.width
  rw [h]
  cases type with
  | base type => cases type <;> rfl
  | object name => rfl
  | array component => rfl

theorem width_receiver {o : Operand V} (h : o.family = Instruction.family CallSite.receiverType) :
    o.width = 1 := by
  have hwidth := width_eq_of_family h
  exact hwidth

/-- The slots of arguments follow one another. Each is one that a 16-bit index can name. A wide one
takes two. -/
theorem slotsFor_cons_eq_ok {base : UInt16} {offset width : Nat} {type : FieldType}
    {rest : List FieldType} {slots : List UInt16}
    (h : CallSite.slotsFor base offset (type :: rest) = .ok (slots, width)) :
    ∃ slot slots', slots = slot :: slots' ∧ slot.toNat = base.toNat + offset
      ∧ CallSite.slotsFor base (offset + type.width) rest = .ok (slots', width) := by
  obtain ⟨slot, hslot, h⟩ := bind_eq_ok.1 h
  obtain ⟨⟨slots', width'⟩, hslots, h⟩ := bind_eq_ok.1 h
  cases h
  refine ⟨slot, slots', rfl, ?_, hslots⟩
  unfold CallSite.slotAt at hslot
  split at hslot
  · next hlt =>
    cases hslot
    rw [UInt16.toNat_ofNat']
    exact Nat.mod_eq_of_lt hlt
  · cases hslot

/-- The offset behind the slots of all arguments is the sum of their widths. This is the number of
slots that spilling needs. -/
theorem width_of_slotsFor {base : UInt16} {offset width : Nat}
    {args : List (FieldType × Option String)} {slots : List UInt16} {ops : List (Operand V)}
    (hfits : Fits args ops) (h : CallSite.slotsFor base offset (args.map (·.1)) = .ok (slots, width)) :
    width = offset + depth ops := by
  induction hfits generalizing offset slots with
  | nil =>
    cases h
    rfl
  | @cons a o _ _ hfamily _ ih =>
    rw [List.map_cons] at h
    obtain ⟨slot, slots', rfl, _, hrest⟩ := slotsFor_cons_eq_ok h
    rw [ih hrest, depth_cons, width_eq_of_family hfamily]
    omega

theorem appends_castTo (name : String) : Appends (CallSite.castTo name) :=
  (appends_internClass name).bind fun _ => .pure _

/-- Loading an argument interns the class that it is cast to, if any. -/
theorem appends_loadArg (arg : (FieldType × Option String) × UInt16) :
    Appends (CallSite.loadArg arg) := by
  obtain ⟨⟨type, cast⟩, slot⟩ := arg
  cases cast with
  | none => exact .pure _
  | some name => exact (appends_castTo name).bind fun _ => .pure _

section Arguments

variable {pool : ConstantPool} {b : Bounds} {base : UInt16} {offset width : Nat}
  {args : List (FieldType × Option String)} {slots : List UInt16} {ops : List (Operand V)}

/-- **Storing arguments**, the last one first, empties the stack down to what lies under them. The
induction is over the arguments from the first one on, so the store of the first comes last. -/
theorem run_stores (hfits : Fits args ops)
    (hslots : CallSite.slotsFor base offset (args.map (·.1)) = .ok (slots, width))
    (hbound : base.toNat + width ≤ b.slots) (stack : List (Operand V)) (locals : Nat → Cell V) :
    run pool b ((args.zip slots).reverse.map fun ((type, _), slot) => Instruction.store type slot)
        { stack := ops.reverse ++ stack, locals }
      = some { stack, locals := writeAll (base.toNat + offset) ops locals } := by
  induction hfits generalizing offset slots stack with
  | nil => rfl
  | @cons a o args ops hfamily hfits ih =>
    have hwidth := width_of_slotsFor (.cons hfamily hfits) hslots
    rw [List.map_cons] at hslots
    obtain ⟨slot, slots', rfl, hslot, hrest⟩ := slotsFor_cons_eq_ok hslots
    rw [depth_cons] at hwidth
    rw [List.zip_cons_cons, List.reverse_cons, List.map_append, run_append, List.reverse_cons,
      List.append_assoc, ih hrest, ← width_eq_of_family hfamily]
    show run pool b [Instruction.store a.1 slot] _ = _
    rw [run_cons, step_store, ← hfamily, hslot, List.singleton_append, store_top (by omega),
      ← Nat.add_assoc]
    rfl

/-- Loading one argument, with its cast. It comes to lie on the stack as it was, but for the
cast. -/
theorem run_loadArg {arg : (FieldType × Option String) × UInt16} {o : Operand V}
    {loads : List Instruction} {start mid : ConstantPool}
    (h : CallSite.loadArg arg start = .ok loads mid) (hstart : Reachable start)
    (hgrown : Grown mid pool) (hfamily : o.family = Instruction.family arg.1.1)
    (hcast : arg.1.2.isSome → arg.1.1.isReference) {locals : Nat → Cell V}
    (hholds : Holds locals arg.2.toNat (o :: ops)) (hslot : arg.2.toNat + o.width ≤ b.slots)
    {stack : List (Operand V)} (hdepth : depth (o :: stack) ≤ b.depth) :
    run pool b loads { stack, locals } = some { stack := o.castTo arg.1.2 :: stack, locals } := by
  obtain ⟨⟨type, cast⟩, slot⟩ := arg
  have hload : step pool b { stack, locals } (Instruction.load type slot)
      = some { stack := o :: stack, locals } := by
    rw [step_load, ← hfamily]
    exact load_held hholds hslot hdepth
  -- Without a cast the load is all there is.
  cases cast with
  | none =>
    cases h
    rw [run_cons, hload]
    rfl
  | some name =>
    obtain ⟨instruction, mid', hname, h⟩ := Interning.bind_eq_ok.1 h
    cases h
    obtain ⟨index, mid'', hindex, h⟩ := Interning.bind_eq_ok.1 hname
    cases h
    have hreference : o.family = referenceFamily := by
      have htype := hcast rfl
      rw [hfamily]
      cases type with
      | base type => cases htype
      | object name => rfl
      | array component => rfl
    rw [run_cons, hload]
    show run pool b [Instruction.withWord Opcode.checkCast index] _ = _
    rw [run_cons, step_checkCast pool b _ (hgrown.getClassName (internClass_spec hstart hindex)),
      cast_top hreference]
    rfl

/-- **Loading arguments** puts them back in order, each with its cast. The pool grows by the classes
of the casts, which leaves what was interned before where it is. -/
theorem run_loads {loads : List (List Instruction)} {start last : ConstantPool}
    (h : (args.zip slots).mapM CallSite.loadArg start = .ok loads last) (hstart : Reachable start)
    (hgrown : Grown last pool) (hfits : Fits args ops)
    (hcasts : ∀ a ∈ args, a.2.isSome → a.1.isReference)
    (hslots : CallSite.slotsFor base offset (args.map (·.1)) = .ok (slots, width))
    (hbound : base.toNat + width ≤ b.slots) {locals : Nat → Cell V}
    (hholds : Holds locals (base.toNat + offset) ops) {stack : List (Operand V)}
    (hdepth : depth ops + depth stack ≤ b.depth) :
    run pool b loads.flatten { stack, locals }
      = some { stack := (List.zipWith (fun a o => o.castTo a.2) args ops).reverse ++ stack,
               locals } := by
  induction hfits generalizing offset slots stack loads start with
  | nil =>
    cases h
    rfl
  | @cons a o args ops hfamily hfits ih =>
    have hwidth := width_of_slotsFor (.cons hfamily hfits) hslots
    rw [List.map_cons] at hslots
    obtain ⟨slot, slots', rfl, hslot, hrest⟩ := slotsFor_cons_eq_ok hslots
    rw [List.zip_cons_cons, List.mapM_cons] at h
    obtain ⟨first, mid, hfirst, h⟩ := Interning.bind_eq_ok.1 h
    obtain ⟨more, last', hmore, h⟩ := Interning.bind_eq_ok.1 h
    cases h
    rw [depth_cons] at hdepth hwidth
    have hmid := (appends_loadArg _).reachable_of_ok hstart hfirst
    have hmoreGrown := (Appends.mapM fun x _ => appends_loadArg x).grown_of_ok hmore
    rw [← hslot] at hholds
    -- The first argument comes to lie on what is on the stack.
    have hload : run pool b first { stack, locals }
        = some { stack := o.castTo a.2 :: stack, locals } := by
      refine run_loadArg hfirst hstart (hmoreGrown.trans hgrown) hfamily
        (hcasts a (List.mem_cons_self ..)) hholds ?_ ?_
      · show slot.toNat + o.width ≤ b.slots
        omega
      · rw [depth_cons]
        omega
    rw [hslot] at hholds
    -- The first operand is on the stack, and the others are held behind it.
    rw [List.flatten_cons, run_append, hload]
    have hrestHolds := hholds.2.2
    rw [Nat.add_assoc, width_eq_of_family hfamily] at hrestHolds
    show run pool b more.flatten _ = _
    rw [ih hmore hmid (fun a ha => hcasts a (List.mem_cons_of_mem _ ha)) hrest hrestHolds
      (by rw [depth_cons, width_castTo]; omega)]
    simp

end Arguments

/-! ## Moves of a call site

A receiver lies under the arguments, so its turn is when all of them are stored and none is loaded
again: it is stored, loaded and cast. One that is not cast stays where it is. -/

/-- The receiver and the arguments that a call site takes from the stack. A receiver that is
cast must be there. -/
structure Operands (site : CallSite) (receiver : Option (Operand V)) (ops : List (Operand V)) :
    Prop where
  args : Fits site.args ops
  receiver : site.receiverCast.isSome → ∃ r, receiver = some r ∧ r.family = referenceFamily

/-- The operands that a call site moves, in the order of their slots. -/
def moved (site : CallSite) (receiver : Option (Operand V)) (ops : List (Operand V)) :
    List (Operand V) :=
  if site.receiverCast.isSome then receiver.toList ++ ops else ops

/-- The receiver and the arguments with their casts, first one first. -/
def castOperands (site : CallSite) (receiver : Option (Operand V)) (ops : List (Operand V)) :
    List (Operand V) :=
  (receiver.map (·.castTo site.receiverCast)).toList
    ++ List.zipWith (fun a o => o.castTo a.2) site.args ops

section Site

variable {site : CallSite} {pool start last : ConstantPool} {b : Bounds} {base : UInt16}
  {moves : List Instruction} {width : Nat} {receiver : Option (Operand V)}
  {ops stack : List (Operand V)}

/-- Storing the receiver and loading it again casts it. What lies above it has been stored before,
and what lies below is not touched. -/
theorem run_reloadReceiver {cast : String} {instructions : List Instruction}
    (h : CallSite.reloadReceiver base cast start = .ok instructions last)
    (hstart : Reachable start) (hgrown : Grown last pool) {r : Operand V}
    (hfamily : r.family = referenceFamily) (hbound : base.toNat + 1 ≤ b.slots)
    (hdepth : depth (r :: stack) ≤ b.depth) (locals : Nat → Cell V) :
    run pool b instructions { stack := r :: stack, locals }
      = some { stack := r.castTo (some cast) :: stack, locals := write base.toNat r locals } := by
  obtain ⟨slot, hslot, h⟩ := Interning.lift_bind_eq_ok.1 h
  obtain ⟨check, mid', hcheck, h⟩ := Interning.bind_eq_ok.1 h
  cases h
  obtain ⟨index, mid'', hindex, h⟩ := Interning.bind_eq_ok.1 hcheck
  cases h
  have hat : slot.toNat = base.toNat := by
    unfold CallSite.slotAt at hslot
    split at hslot
    · cases hslot
      simp
    · cases hslot
  have hreceiver : Instruction.family CallSite.receiverType = r.family := hfamily.symm
  have hwidth : r.width = 1 := width_receiver hfamily
  have hholds : Holds (write base.toNat r locals) base.toNat [r] :=
    holds_write (show Holds locals (base.toNat + r.width) [] from trivial)
  -- The receiver goes to its slot, comes back, and is cast.
  rw [run_cons, step_store, hreceiver, hat, store_top (by omega)]
  show run pool b [_, _] _ = _
  rw [run_cons, step_load, hreceiver, hat, load_held hholds (by omega) hdepth]
  show run pool b [_] _ = _
  rw [run_cons, step_checkCast pool b _ (hgrown.getClassName (internClass_spec hstart hindex)),
    cast_top hfamily]
  rfl

/-- Spilling without a receiver to cast: the arguments are stored and loaded, and a receiver under
them stays where it is. -/
theorem spill_eq_ok_of_none (hcast : site.receiverCast = none)
    (h : CallSite.spill site base start = .ok (moves, width) last) :
    ∃ slots loads, CallSite.slotsFor base 0 (site.args.map (·.1)) = .ok (slots, width)
      ∧ (site.args.zip slots).mapM CallSite.loadArg start = .ok loads last
      ∧ moves = ((site.args.zip slots).reverse.map fun ((type, _), slot) =>
          Instruction.store type slot) ++ loads.flatten := by
  unfold CallSite.spill at h
  simp only [hcast] at h
  obtain ⟨⟨slots, width'⟩, hslots, h⟩ := Interning.lift_bind_eq_ok.1 h
  obtain ⟨reload, mid, hreload, h⟩ := Interning.bind_eq_ok.1 h
  cases hreload
  obtain ⟨loads, mid, hloads, h⟩ := Interning.bind_eq_ok.1 h
  cases h
  exact ⟨slots, loads, hslots, hloads, by simp⟩

/-- Spilling with a receiver to cast, which has the first slot. Arguments are stored from the last
one on, and loaded from the first one on. -/
theorem spill_eq_ok_of_some {cast : String} (hcast : site.receiverCast = some cast)
    (h : CallSite.spill site base start = .ok (moves, width) last) :
    ∃ slots reload loads mid,
      CallSite.slotsFor base 1 (site.args.map (·.1)) = .ok (slots, width)
      ∧ CallSite.reloadReceiver base cast start = .ok reload mid
      ∧ (site.args.zip slots).mapM CallSite.loadArg mid = .ok loads last
      ∧ moves = ((site.args.zip slots).reverse.map fun ((type, _), slot) =>
          Instruction.store type slot) ++ (reload ++ loads.flatten) := by
  unfold CallSite.spill at h
  simp only [hcast] at h
  obtain ⟨_, _, h⟩ := Interning.lift_bind_eq_ok.1 h
  obtain ⟨⟨slots, width'⟩, hslots, h⟩ := Interning.lift_bind_eq_ok.1 h
  obtain ⟨reload, mid, hreload, h⟩ := Interning.bind_eq_ok.1 h
  obtain ⟨loads, mid', hloads, h⟩ := Interning.bind_eq_ok.1 h
  cases h
  exact ⟨slots, reload, loads, mid, hslots, hreload, hloads, by simp⟩

theorem appends_reloadReceiver (base : UInt16) (cast : String) :
    Appends (CallSite.reloadReceiver base cast) :=
  (Appends.lift _).bind fun _ => (appends_castTo cast).bind fun _ => .pure _

/-- **Spilling puts all operands back** where they were, in order and cast, and writes nothing but
the fresh slots. The stack is never deeper than at the start, since everything is taken off it
before it is put back. -/
theorem run_spill (h : CallSite.spill site base start = .ok (moves, width) last)
    (hstart : Reachable start) (hgrown : Grown last pool)
    (hcasts : ∀ a ∈ site.args, a.2.isSome → a.1.isReference) (hops : Operands site receiver ops)
    (hbound : base.toNat + width ≤ b.slots)
    (hdepth : depth ops + depth receiver.toList + depth stack ≤ b.depth)
    (locals : Nat → Cell V) :
    run pool b moves { stack := ops.reverse ++ (receiver.toList ++ stack), locals }
        = some { stack := (castOperands site receiver ops).reverse ++ stack,
                 locals := writeAll base.toNat (moved site receiver ops) locals }
      ∧ width = depth (moved site receiver ops) := by
  cases hcast : site.receiverCast with
  | none =>
    obtain ⟨slots, loads, hslots, hloads, rfl⟩ := spill_eq_ok_of_none hcast h
    have hwidth := width_of_slotsFor hops.args hslots
    have hmoved : moved site receiver ops = ops := by simp [moved, hcast]
    rw [hmoved]
    refine ⟨?_, by omega⟩
    rw [run_append, run_stores hops.args hslots hbound]
    show run pool b loads.flatten _ = _
    rw [run_loads hloads hstart hgrown hops.args hcasts hslots hbound (holds_writeAll _ _ _)
      (by rw [depth_append]; omega)]
    cases receiver <;> simp [castOperands, hcast, Operand.castTo]
  | some cast =>
    obtain ⟨slots, reload, loads, mid, hslots, hreload, hloads, rfl⟩ :=
      spill_eq_ok_of_some hcast h
    obtain ⟨r, rfl, hfamily⟩ := hops.receiver (by rw [hcast]; rfl)
    have hwidth := width_of_slotsFor hops.args hslots
    have hreceiver : r.width = 1 := width_receiver hfamily
    have hmoved : moved site (some r) ops = r :: ops := by simp [moved, hcast]
    have hmid := (appends_reloadReceiver base cast).reachable_of_ok hstart hreload
    have hloadsGrown := (Appends.mapM fun x _ => appends_loadArg x).grown_of_ok hloads
    have hreceiverDepth : depth (some r).toList = 1 := by simp [depth, hreceiver]
    rw [hmoved, depth_cons, hreceiver]
    refine ⟨?_, by omega⟩
    rw [run_append, run_stores hops.args hslots hbound]
    show run pool b (reload ++ loads.flatten) { stack := r :: stack, locals := _ } = _
    rw [run_append, run_reloadReceiver hreload hstart (hloadsGrown.trans hgrown) hfamily
      (by omega) (by rw [depth_cons]; omega)]
    show run pool b loads.flatten { stack := _, locals := _ } = _
    -- Behind the receiver's slot, writing the receiver changes nothing.
    have hholds : Holds (write base.toNat r (writeAll (base.toNat + 1) ops locals))
        (base.toNat + 1) ops :=
      (holds_writeAll _ _ _).congr fun n hn => write_of_outside r _ (.inr (by omega))
    rw [run_loads hloads hmid hgrown hops.args hcasts hslots hbound hholds
      (by rw [depth_cons, width_castTo]; omega)]
    simp [castOperands, hcast, writeAll, hreceiver]

end Site

end ClassLoom.Machine
