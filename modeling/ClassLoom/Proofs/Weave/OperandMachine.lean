import ClassLoom.ConstantPool
import ClassLoom.Instruction
import Mathlib.Algebra.GroupWithZero.Nat
import Mathlib.Data.List.Forall2

/-!
# A machine for operands

What loads and stores of local variables and casts do to the operand stack and to the local
variables, up to what values are. A wide value takes two slots; it can be loaded only while
both still hold it. The machine stops at instructions it does not know, where families do not
fit, at local variable slots out of bounds and where the stack gets too deep.

* `step_load`, `step_store`, `step_checkCast`: instructions in whatever form they are written.
-/

namespace ClassLoom.Machine

/-! ## States

What is run is only what is emitted for a call: moves between the stack and local variables, and
casts. A value is of any type, and what counts is where it goes. -/

/-- A value with what has been done to it. -/
structure Operand (V : Type) where
  /-- The family of loads and stores that move the value. -/
  family : UInt8
  value : V
  /-- The classes that the value has been cast to, in order. -/
  casts : List String := []

/-- The family of references. -/
def referenceFamily : UInt8 := 4

/-- The slots that an operand takes. -/
def Operand.width {V : Type} (o : Operand V) : Nat := if o.family = 1 || o.family = 3 then 2 else 1

/-- The operand after a cast, if there is one. -/
def Operand.castTo {V : Type} (o : Operand V) : Option String → Operand V
  | none => o
  | some name => { o with casts := o.casts ++ [name] }

/-- Whether operands are values of the given types, one for each. -/
abbrev AreOf {V : Type} (types : List FieldType) (ops : List (Operand V)) : Prop :=
  List.Forall₂ (fun type o => o.family = Instruction.family type) types ops

/-- What a local variable slot holds. -/
inductive Cell (V : Type) where
  | unused
  /-- A value, or the first half of a wide one. -/
  | holds (o : Operand V)
  /-- The second half of a wide value. -/
  | upper

/-- Whether a slot holds the second half of a wide value. -/
def Cell.isUpper {V : Type} : Cell V → Bool
  | upper => true
  | _ => false

/-- The operand stack, top first, and the local variable slots. -/
structure State (V : Type) where
  stack : List (Operand V)
  locals : Nat → Cell V

/-- The limits of a method's frame. -/
structure Bounds where
  /-- The number of local variable slots. -/
  slots : Nat
  /-- The greatest depth of the operand stack, in slots. -/
  depth : Nat

variable {V : Type}

/-- The slots that the stack takes. -/
def depth (stack : List (Operand V)) : Nat := (stack.map Operand.width).sum

/-! ## Steps

A step fails where the format would not allow it: an empty stack, a slot or a depth beyond the
limits of the frame, a variable of another family. -/

/-- Local variables after an operand was written to `slot`. -/
def write (slot : Nat) (o : Operand V) (locals : Nat → Cell V) : Nat → Cell V := fun n =>
  if n = slot then .holds o else if n = slot + 1 ∧ o.width = 2 then .upper else locals n

/-- Pushes an operand. -/
def push (b : Bounds) (o : Operand V) (s : State V) : Option (State V) :=
  if depth (o :: s.stack) ≤ b.depth then some { s with stack := o :: s.stack } else none

/-- Pushes the operand in a local variable. -/
def load (b : Bounds) (family : UInt8) (slot : Nat) (s : State V) : Option (State V) :=
  match s.locals slot with
  | .holds o =>
    if o.family = family ∧ slot + o.width ≤ b.slots
        ∧ (o.width = 2 → (s.locals (slot + 1)).isUpper = true) then push b o s
    else none
  | _ => none

/-- Pops an operand into a local variable. -/
def store (b : Bounds) (family : UInt8) (slot : Nat) (s : State V) : Option (State V) :=
  match s.stack with
  | o :: rest =>
    if o.family = family ∧ slot + o.width ≤ b.slots then
      some { stack := rest, locals := write slot o s.locals }
    else none
  | [] => none

/-- Casts the reference on top of the stack. -/
def cast (name : String) (s : State V) : Option (State V) :=
  match s.stack with
  | o :: rest =>
    if o.family = referenceFamily then some { s with stack := o.castTo (some name) :: rest } else none
  | [] => none

/-- An instruction with a local variable for an operand. -/
def localStep (b : Bounds) (op : UInt8) (slot : Nat) (s : State V) : Option (State V) :=
  if Opcode.isLoad op then load b (op - Opcode.iload) slot s
  else if Opcode.isStore op then store b (op - Opcode.istore) slot s
  else none

/-- An instruction with a local variable in its opcode. -/
def shortStep (b : Bounds) (op : UInt8) (s : State V) : Option (State V) :=
  if Opcode.isShortLoad op then
    load b ((op - Opcode.iload0) / 4) ((op - Opcode.iload0) % 4).toNat s
  else if Opcode.isShortStore op then
    store b ((op - Opcode.istore0) / 4) ((op - Opcode.istore0) % 4).toNat s
  else none

/-- One instruction of a class with the given pool. -/
def step (pool : ConstantPool) (b : Bounds) (s : State V) : Instruction → Option (State V)
  | .plain [op] => shortStep b op s
  | .plain [op, slot] => localStep b op slot.toNat s
  | .plain [op, high, low] =>
    if op = Opcode.checkCast then
      match pool.getClassName (Bytes.toWord16 high low) with
      | .ok name => cast name s
      | .error _ => none
    else none
  | .plain [op, inner, high, low] =>
    if op = Opcode.wide then localStep b inner (Bytes.toWord16 high low).toNat s else none
  | _ => none

/-- Instructions one behind the other. -/
def run (pool : ConstantPool) (b : Bounds) (instructions : List Instruction) (s : State V) :
    Option (State V) :=
  instructions.foldlM (step pool b) s

/-! ## Instructions in their written forms

A load or a store is written in one of three forms, by its slot. The machine reads what is written,
so its steps are shown to be the same in all forms. -/

/-- There are five families. -/
theorem family_lt (type : FieldType) : ∃ f : Fin 5, Instruction.family type = UInt8.ofNat f := by
  cases type with
  | base type => cases type <;> decide
  | object name => exact ⟨4, rfl⟩
  | array component => exact ⟨4, rfl⟩

/-- Families of loads, by opcode. -/
theorem load_opcode (f : Fin 5) :
    Opcode.isLoad (Opcode.iload + UInt8.ofNat f) = true
      ∧ Opcode.iload + UInt8.ofNat f - Opcode.iload = UInt8.ofNat f := by
  revert f
  decide

/-- Families of stores, by opcode. -/
theorem store_opcode (f : Fin 5) :
    Opcode.isLoad (Opcode.istore + UInt8.ofNat f) = false
      ∧ Opcode.isStore (Opcode.istore + UInt8.ofNat f) = true
      ∧ Opcode.istore + UInt8.ofNat f - Opcode.istore = UInt8.ofNat f := by
  revert f
  decide

/-- Families and slots of short loads, by opcode. -/
theorem shortLoad_opcode (f : Fin 5) (n : Fin 4) :
    let op := Opcode.iload0 + UInt8.ofNat f * 4 + UInt8.ofNat n
    Opcode.isShortLoad op = true ∧ (op - Opcode.iload0) / 4 = UInt8.ofNat f
      ∧ ((op - Opcode.iload0) % 4).toNat = n := by
  revert f n
  decide

/-- Families and slots of short stores, by opcode. -/
theorem shortStore_opcode (f : Fin 5) (n : Fin 4) :
    let op := Opcode.istore0 + UInt8.ofNat f * 4 + UInt8.ofNat n
    Opcode.isShortLoad op = false ∧ Opcode.isShortStore op = true
      ∧ (op - Opcode.istore0) / 4 = UInt8.ofNat f
      ∧ ((op - Opcode.istore0) % 4).toNat = n := by
  revert f n
  decide

section Forms

variable (pool : ConstantPool) (b : Bounds) (s : State V)

/-- An access to a local variable does the same in all its written forms. The short form, the one
with a byte, and the one behind the wide prefix name the same slot. -/
theorem step_localAccess {opcode short : UInt8} {slot : UInt16}
    (effect : Nat → State V → Option (State V))
    (hlong : ∀ n, localStep b opcode n s = effect n s)
    (hshort : ∀ n : Fin 4, shortStep b (short + UInt8.ofNat n) s = effect n s) :
    step pool b s (Instruction.localAccess opcode short slot) = effect slot.toNat s := by
  unfold Instruction.localAccess
  -- The first four slots are in the opcode, the first 256 take a byte, and the others a word.
  split
  · next h =>
    have hbyte : slot.toUInt8 = UInt8.ofNat slot.toNat := by simp
    show shortStep b (short + slot.toUInt8) s = _
    rw [hbyte]
    exact hshort ⟨slot.toNat, h⟩
  · split
    · next h =>
      show localStep b opcode slot.toUInt8.toNat s = _
      have hbyte : slot.toUInt8.toNat = slot.toNat := by
        rw [UInt16.toNat_toUInt8]
        exact Nat.mod_eq_of_lt h
      rw [hbyte]
      exact hlong _
    · show localStep b opcode (Bytes.toWord16 _ _).toNat s = _
      rw [Bytes.toWord16_word16]
      exact hlong _

/-- **A load in whatever form it is written.** It pushes what is in the slot if that is of the
family of the load. -/
theorem step_load (type : FieldType) (slot : UInt16) :
    step pool b s (Instruction.load type slot)
      = load b (Instruction.family type) slot.toNat s := by
  obtain ⟨f, hf⟩ := family_lt type
  unfold Instruction.load
  rw [hf]
  refine step_localAccess pool b s (load b (UInt8.ofNat f)) (fun n => ?_) fun n => ?_
  · obtain ⟨hload, hfamily⟩ := load_opcode f
    unfold localStep
    rw [if_pos hload, hfamily]
  · obtain ⟨hload, hfamily, hslot⟩ := shortLoad_opcode f n
    unfold shortStep
    rw [if_pos hload, hfamily, hslot]

/-- **A store in whatever form it is written.** It takes the top operand off if that is of the
family of the store. -/
theorem step_store (type : FieldType) (slot : UInt16) :
    step pool b s (Instruction.store type slot)
      = store b (Instruction.family type) slot.toNat s := by
  obtain ⟨f, hf⟩ := family_lt type
  unfold Instruction.store
  rw [hf]
  refine step_localAccess pool b s (store b (UInt8.ofNat f)) (fun n => ?_) fun n => ?_
  · obtain ⟨hload, hstore, hfamily⟩ := store_opcode f
    unfold localStep
    rw [hload, if_neg (by simp), if_pos hstore, hfamily]
  · obtain ⟨hload, hstore, hfamily, hslot⟩ := shortStore_opcode f n
    unfold shortStep
    rw [hload, if_neg (by simp), if_pos hstore, hfamily, hslot]

/-- A cast is to the class that its index names. -/
theorem step_checkCast {index : UInt16} {name : String}
    (h : pool.getClassName index = .ok name) :
    step pool b s (Instruction.withWord Opcode.checkCast index) = cast name s := by
  show (if Opcode.checkCast = Opcode.checkCast then
    match pool.getClassName (Bytes.toWord16 _ _) with
    | .ok name => cast name s
    | .error _ => none
    else none) = _
  rw [if_pos rfl, Bytes.toWord16_word16, h]

end Forms

end ClassLoom.Machine
