import ClassLoom.Proofs.Instruction.Assembled
import ClassLoom.Proofs.Weave.EmittedForm
import ClassLoom.Proofs.Weave.ForwarderBody

/-!
# A machine for straight bodies

A body without branches pushes operands, makes a call and returns. A run stops at each call, in
front of the instructions that are left, and goes on with what the call gives; what a called
method does is left open. The machine is stuck where the operand machine is: at a slot or a depth
that the body does not declare, and at a return of another family than the value to be returned.

* `runToStop_loadParams`: parameters are pushed in order, from wherever they are held;
* `decode_of_plain`: straight code decodes to what was assembled.
-/

namespace ClassLoom

open ConstantPool

namespace Machine

variable {V : Type}

/-! ## Runs

The operand machine only moves operands. For whole bodies it is extended by instructions that make
and duplicate objects, and its runs stop at calls and returns, with what is handed over. -/

/-- The limits that a body declares. -/
def boundsOf (code : Code) : Bounds where
  slots := code.maxLocals.toNat
  depth := code.maxStack.toNat

/-- Where a run stops. -/
inductive Stop (V : Type) where
  /-- At a call, with the instructions behind it. -/
  | call (opcode : UInt8) (target : MemberRef) (s : State V) (rest : List Instruction)
  /-- At a return, with the value that is returned if there is one. -/
  | returned (opcode : UInt8) (result : Option (Operand V))

/-- The reference to a new object of a class, where `created` has the objects. -/
def newOperand (created : String → V) (className : String) : Operand V :=
  { family := referenceFamily, value := created className }

/-- Pushes the operand on top of the stack once more, if it takes one slot. -/
def duplicate (b : Bounds) (s : State V) : Option (State V) :=
  match s.stack with
  | o :: _ => if o.width = 1 then push b o s else none
  | [] => none

/-- Instructions that make and duplicate objects. -/
def make (created : String → V) (pool : ConstantPool) (b : Bounds) (s : State V) :
    Instruction → Option (State V)
  | .plain [op] => if op = Opcode.dup then duplicate b s else none
  | .plain [op, high, low] =>
    if op = Opcode.newObject then
      match pool.getClassName (Bytes.toWord16 high low) with
      | .ok name => push b (newOperand created name) s
      | .error _ => none
    else none
  | _ => none

/-- One instruction that neither calls nor returns. -/
def advance (created : String → V) (pool : ConstantPool) (b : Bounds) (s : State V)
    (i : Instruction) : Option (State V) :=
  (step pool b s i).or (make created pool b s i)

/-- The method that an instruction calls, unless it does so through an interface or a call site. -/
def callOf? (pool : ConstantPool) : Instruction → Option (UInt8 × MemberRef)
  | .plain [op, high, low] =>
    if op = Opcode.invokeStatic || op = Opcode.invokeSpecial || op = Opcode.invokeVirtual then
      (pool.getMember (Bytes.toWord16 high low)).toOption.map (op, ·)
    else none
  | _ => none

/-- What a return returns, if it fits what is on top of the stack. -/
def leave? (s : State V) : Instruction → Option (Option (Operand V))
  | .plain [op] =>
    if op = Opcode.vreturn then some none
    else if Opcode.isReturn op then
      match s.stack with
      | o :: _ => if o.family = op - Opcode.ireturn then some (some o) else none
      | [] => none
    else none
  | _ => none

/-- Runs instructions up to a call or a return. -/
def runToStop (created : String → V) (pool : ConstantPool) (b : Bounds) :
    List Instruction → State V → Option (Stop V)
  | [], _ => none
  | i :: rest, s =>
    match callOf? pool i, leave? s i with
    | some (op, target), _ => some (.call op target s rest)
    | none, some result => some (.returned i.opcode result)
    | none, none => (advance created pool b s i).bind (runToStop created pool b rest)

/-- The state behind a call that gave `result`, with `kept` on the stack under its operands. -/
def resume (b : Bounds) (kept : List (Operand V)) (locals : Nat → Cell V) :
    Option (Operand V) → Option (State V)
  | none => some { stack := kept, locals }
  | some o => push b o { stack := kept, locals }

theorem push_eq {b : Bounds} {o : Operand V} {stack : List (Operand V)} {locals : Nat → Cell V}
    (h : depth (o :: stack) ≤ b.depth) :
    push b o { stack, locals } = some { stack := o :: stack, locals } :=
  if_pos h

/-- An operand of one slot is duplicated where there is room. -/
theorem duplicate_eq {b : Bounds} {o : Operand V} {stack : List (Operand V)}
    {locals : Nat → Cell V} (hnarrow : o.width = 1) (h : depth (o :: o :: stack) ≤ b.depth) :
    duplicate b { stack := o :: stack, locals } = some { stack := o :: o :: stack, locals } := by
  unfold duplicate
  simp only
  rw [if_pos hnarrow, push_eq h]

section Runs

variable {created : String → V} {pool : ConstantPool} {b : Bounds} {s s' : State V}
  {rest : List Instruction}

/-- An instruction that the operand machine knows does the same here. -/
theorem runToStop_of_step {i : Instruction} (hcall : callOf? pool i = none)
    (hleave : ∀ s : State V, leave? s i = none) (h : step pool b s i = some s') :
    runToStop created pool b (i :: rest) s = runToStop created pool b rest s' := by
  simp only [runToStop, advance, hcall, hleave s, h, Option.some_or, Option.bind_some]

/-- A load is one of these, in each form that it has. None of these forms is a call, a return, or
something that makes an object. -/
theorem runToStop_load {type : FieldType} {slot : UInt16}
    (h : load b (Instruction.family type) slot.toNat s = some s') :
    runToStop created pool b (.load type slot :: rest) s = runToStop created pool b rest s' := by
  refine runToStop_of_step ?_ (fun s => ?_) ((step_load pool b s type slot).trans h)
  · unfold Instruction.load Instruction.localAccess
    split
    · rfl
    · split <;> rfl
  · unfold Instruction.load Instruction.localAccess
    split
    · next hshort =>
      obtain ⟨f, hf⟩ := family_lt type
      have hslot : slot.toUInt8 = UInt8.ofNat slot.toNat := by simp
      -- Loads in the short form have opcodes of their own, none of them that of a return.
      have hopcode : ∀ (f : Fin 5) (n : Fin 4),
          Opcode.iload0 + UInt8.ofNat f * 4 + UInt8.ofNat n ≠ Opcode.vreturn
            ∧ Opcode.isReturn (Opcode.iload0 + UInt8.ofNat f * 4 + UInt8.ofNat n) = false := by
        decide
      obtain ⟨hvoid, hvalue⟩ := hopcode f ⟨slot.toNat, hshort⟩
      rw [hf, hslot]
      simp only [Instruction.op, leave?]
      rw [if_neg hvoid, hvalue]
      rfl
    · split <;> rfl

/-- A `new` makes an object of the class that its index stands for. -/
theorem make_new {index : UInt16} {name : String} (h : pool.getClassName index = .ok name) :
    make created pool b s (.withWord Opcode.newObject index)
      = push b (newOperand created name) s := by
  simp only [Instruction.withWord, Bytes.word16, make, if_true, Bytes.toWord16_word16, h]

theorem runToStop_new {index : UInt16} {name : String} (h : pool.getClassName index = .ok name) :
    runToStop created pool b (.withWord Opcode.newObject index :: rest) s
      = (push b (newOperand created name) s).bind (runToStop created pool b rest) := by
  rw [← make_new h]
  rfl

theorem runToStop_dup : runToStop created pool b (.op Opcode.dup :: rest) s
    = (duplicate b s).bind (runToStop created pool b rest) := rfl

/-- A call stops the run. -/
theorem runToStop_call {opcode : UInt8} {index : UInt16} {target : MemberRef}
    (hopcode : opcode = Opcode.invokeStatic ∨ opcode = Opcode.invokeSpecial
      ∨ opcode = Opcode.invokeVirtual) (h : pool.getMember index = .ok target) :
    runToStop created pool b (.withWord opcode index :: rest) s
      = some (.call opcode target s rest) := by
  have hcall : callOf? pool (.withWord opcode index) = some (opcode, target) := by
    simp only [Instruction.withWord, Bytes.word16, callOf?, Bytes.toWord16_word16, h]
    rw [if_pos (by simpa [or_assoc] using hopcode)]
    rfl
  simp only [runToStop, hcall]

end Runs

/-! ## Parameters

Pushing all parameters, when the operands that they stand for lie in local variables one behind the
other. -/

/-- Operands of given types take as many slots as the types say. -/
theorem AreOf.depth_eq {types : List FieldType} {ops : List (Operand V)} (h : AreOf types ops) :
    depth ops = FieldType.widthOfAll types := by
  induction h with
  | nil => rfl
  | @cons type o types ops hfamily _ ih =>
    rw [depth_cons, width_eq_of_family hfamily, ih]
    rfl

/-- **Parameters are pushed in order**, from wherever they are held one behind the other. Their
slots are the running totals of the widths, as on entry to a method. -/
theorem runToStop_loadParams {created : String → V} {pool : ConstantPool} {b : Bounds}
    {types : List FieldType} {ops stack : List (Operand V)} {locals : Nat → Cell V} {slot : Nat}
    (hops : AreOf types ops) (hholds : Holds locals slot ops)
    (hslots : slot + depth ops ≤ b.slots) (hbound : b.slots ≤ 65535)
    (hdepth : depth ops + depth stack ≤ b.depth) (rest : List Instruction) :
    runToStop created pool b (Weave.loadParams slot types ++ rest) { stack, locals }
      = runToStop created pool b rest { stack := ops.reverse ++ stack, locals } := by
  induction hops generalizing slot stack with
  | nil => rfl
  | @cons type o types ops hfamily hops ih =>
    rw [depth_cons] at hslots hdepth
    have hwidth := o.width_bounds
    have hslot : (UInt16.ofNat slot).toNat = slot :=
      UInt16.toNat_ofNat_of_lt' (show slot < 65536 by omega)
    -- The parameter lies where the operand was held, and there is room for it on the stack.
    have hload : load b (Instruction.family type) (UInt16.ofNat slot).toNat { stack, locals }
        = some { stack := o :: stack, locals } := by
      rw [hslot, ← hfamily]
      exact load_held hholds (by omega) (by rw [depth_cons]; omega)
    show runToStop created pool b
      (.load type (UInt16.ofNat slot) :: (Weave.loadParams (slot + type.width) types ++ rest)) _ = _
    rw [runToStop_load hload, ← width_eq_of_family hfamily,
      ih hholds.2.2 (by omega) (by rw [depth_cons]; omega), List.reverse_cons, List.append_assoc]
    rfl

/-! ## Returns

A return takes what is on top of the stack, if it is of the family that the opcode is for. -/

/-- Whether a result is one of a method with the given return type. -/
def Gives : ReturnType → Option (Operand V) → Prop
  | .void, result => result = none
  | .value type, result => ∃ o, result = some o ∧ o.family = Instruction.family type

/-- **A return takes what the method's type says** from the stack, and nothing if it is void. The
instruction is the one of the result's family. -/
theorem runToStop_returnOf {created : String → V} {pool : ConstantPool} {b : Bounds}
    {type : ReturnType} {result : Option (Operand V)} (h : Gives type result)
    (kept : List (Operand V)) (locals : Nat → Cell V) (rest : List Instruction) :
    runToStop created pool b (.returnOf type :: rest) { stack := result.toList ++ kept, locals }
      = some (.returned (Instruction.returnOf type).opcode result) := by
  cases type with
  | void =>
    obtain rfl : result = none := h
    rfl
  | value type =>
    obtain ⟨o, rfl, hfamily⟩ := h
    obtain ⟨f, hf⟩ := family_lt type
    -- There are five families, and what holds of their opcodes is checked one by one.
    have hopcode : ∀ f : Fin 5, Opcode.ireturn + UInt8.ofNat f ≠ Opcode.vreturn
        ∧ Opcode.isReturn (Opcode.ireturn + UInt8.ofNat f) = true
        ∧ UInt8.ofNat f = Opcode.ireturn + UInt8.ofNat f - Opcode.ireturn := by
      decide
    obtain ⟨hvoid, hreturn, hsame⟩ := hopcode f
    have hleave : leave? { stack := o :: kept, locals } (.returnOf (.value type))
        = some (some o) := by
      rw [hf] at hfamily
      simp only [Instruction.returnOf, hf, Instruction.op, leave?]
      rw [if_neg hvoid, if_pos hreturn, if_pos (hfamily.trans hsame)]
    show runToStop created pool b (.returnOf (.value type) :: rest)
      { stack := o :: kept, locals } = _
    have hcall : callOf? pool (.returnOf (.value type)) = none := rfl
    simp only [runToStop, hcall, hleave]

end Machine

/-! ## Straight code

Bodies that are made by the weaver have no branches. Such code is assembled instruction by
instruction, and decodes to just these. -/

namespace Instruction

/-- Straight code ends where its instructions do, without any padding. -/
theorem endOf_of_plain {instructions : List Instruction}
    (h : ∀ i ∈ instructions, ∃ bs, i = .plain bs) (pc : Nat) :
    endOf pc instructions = pc + codeSize instructions := by
  induction instructions generalizing pc with
  | nil => rfl
  | cons i rest ih =>
    obtain ⟨⟨bs, rfl⟩, hrest⟩ := List.forall_mem_cons.1 h
    rw [codeSize_cons, ← Nat.add_assoc]
    exact ih hrest _

/-- **Straight code decodes** to what was assembled. There are no targets to check and no padding to
skip. -/
theorem decode_of_plain {instructions : List Instruction} {code : Bytes}
    (h : assemble instructions = .ok code) (hplain : ∀ i ∈ instructions, ∃ bs, i = .plain bs)
    (hwf : ∀ i ∈ instructions, i.WellFormed) (hlength : code.length ≤ 65535) :
    decode code = .ok (laidOut 0 instructions) := by
  have hnowhere : ∀ i ∈ instructions, i.targets = [] := by
    intro i hi
    obtain ⟨bs, rfl⟩ := hplain i hi
    rfl
  obtain ⟨found, hfound, hsize⟩ := exists_assemble_of_plain hplain
  rw [h] at hfound
  cases hfound
  have hend := endOf_of_plain hplain 0
  obtain ⟨hcode, hspells⟩ := spells_of_assemble h hwf
    (fun i hi t ht => by rw [hnowhere i hi] at ht; cases ht) (by omega)
  refine decode_eq_ok.2 ⟨?_, fun e he t ht => ?_⟩
  · rw [hcode]
    exact hspells.decodeOnto []
  · rw [hnowhere e.2 (mem_of_mem_laidOut he)] at ht
    cases ht

end Instruction
end ClassLoom
