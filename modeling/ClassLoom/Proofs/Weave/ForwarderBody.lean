import ClassLoom.Proofs.Instruction.Assembled
import ClassLoom.Proofs.Weave.WovenStub

/-!
# The bodies of forwarders

The instructions of a forwarder are all without code offsets, so they can be assembled, whatever
the method. All that can go wrong is that there is no room for the call in the pool, or that the
parameters are so many that their loads do not fit a body (`BodyFits`).

* `Forwarder.exists_method_iff`: which forwarders can be made;
* `lt_bodyLength_takingInts`: methods with more parameters than a forwarder can load.
-/

namespace ClassLoom

open ConstantPool

namespace Instruction

/-! ## Instructions without code offsets

Without branches and switches an instruction has the same size wherever it stands, and the sizes can
be added up before there is a layout. -/

/-- The bytes that instructions take together, if none of them is a branch or a switch. -/
def codeSize (instructions : List Instruction) : Nat := (instructions.map (·.size 0 false)).sum

theorem codeSize_cons (i : Instruction) (instructions : List Instruction) :
    codeSize (i :: instructions) = i.size 0 false + codeSize instructions :=
  List.sum_cons

theorem codeSize_append (front back : List Instruction) :
    codeSize (front ++ back) = codeSize front + codeSize back := by
  unfold codeSize
  rw [List.map_append, List.sum_append]

/-- They are written one behind the other. The position decides nothing, as none has padding. Their
sizes add up. -/
theorem exists_assembleOnto_of_plain {instructions : List Instruction}
    (h : ∀ i ∈ instructions, ∃ bs, i = .plain bs) (done : List Bytes) (pc : Nat) :
    ∃ code, assembleOnto done pc instructions = .ok code
      ∧ code.length = done.reverse.flatten.length + codeSize instructions := by
  induction instructions generalizing done pc with
  | nil => exact ⟨_, rfl, rfl⟩
  | cons i rest ih =>
    obtain ⟨⟨bs, rfl⟩, hrest⟩ := List.forall_mem_cons.1 h
    obtain ⟨code, hcode, hlength⟩ := ih hrest (bs :: done) (pc + bs.length)
    refine ⟨code, hcode, ?_⟩
    rw [hlength, codeSize_cons, List.reverse_cons, List.flatten_append, List.length_append]
    simp [size, Nat.add_assoc]

/-- Instructions without code offsets can always be assembled, to as many bytes as they take. -/
theorem exists_assemble_of_plain {instructions : List Instruction}
    (h : ∀ i ∈ instructions, ∃ bs, i = .plain bs) :
    ∃ code, assemble instructions = .ok code ∧ code.length = codeSize instructions := by
  obtain ⟨code, hcode, hlength⟩ := exists_assembleOnto_of_plain h [] 0
  exact ⟨code, hcode, by simpa using hlength⟩

/-- An access to a local variable has no code offsets, in none of its three forms. -/
theorem exists_localAccess (opcode short : UInt8) (slot : UInt16) :
    ∃ bs, localAccess opcode short slot = .plain bs := by
  unfold localAccess
  split
  · exact ⟨_, rfl⟩
  · split <;> exact ⟨_, rfl⟩

/-- Behind the first 256 slots a load takes four bytes. -/
theorem size_load_of_large (type : FieldType) {slot : UInt16} (h : 256 ≤ slot.toNat) :
    (load type slot).size 0 false = 4 := by
  unfold load localAccess
  rw [if_neg (by omega), if_neg (by omega)]
  rfl

end Instruction

namespace Weave

open Instruction (codeSize)

/-! ## The loads of parameters

A load takes one byte for the first four slots, two up to slot 255, and four behind. -/

/-- Loads of parameters have no code offsets. -/
theorem exists_of_mem_loadParams {types : List FieldType} {slot : Nat} {i : Instruction}
    (h : i ∈ loadParams slot types) : ∃ bs, i = .plain bs := by
  induction types generalizing slot with
  | nil => cases h
  | cons type rest ih =>
    rcases List.mem_cons.1 h with rfl | h
    · exact Instruction.exists_localAccess _ _ _
    · exact ih h

/-- The parameters behind some others are loaded from the slot behind theirs. -/
theorem loadParams_append (front back : List FieldType) (slot : Nat) :
    loadParams slot (front ++ back)
      = loadParams slot front ++ loadParams (slot + FieldType.widthOfAll front) back := by
  induction front generalizing slot with
  | nil => rfl
  | cons type rest ih =>
    show _ :: loadParams (slot + type.width) (rest ++ back) = _
    rw [ih, Nat.add_assoc]
    rfl

theorem width_pos (type : FieldType) : 0 < type.width := by
  unfold FieldType.width
  split <;> decide

/-- Behind the first 256 slots every parameter takes four bytes to load. This is what makes bodies
of many parameters too long for the format. -/
theorem codeSize_loadParams_of_large {types : List FieldType} {slot : Nat} (h : 256 ≤ slot)
    (hslots : slot + FieldType.widthOfAll types ≤ 65536) :
    codeSize (loadParams slot types) = 4 * types.length := by
  induction types generalizing slot with
  | nil => rfl
  | cons type rest ih =>
    have hpos := width_pos type
    have hslots : slot + (type.width + FieldType.widthOfAll rest) ≤ 65536 := hslots
    have hslot : (UInt16.ofNat slot).toNat = slot :=
      UInt16.toNat_ofNat_of_lt' (show slot < 65536 by omega)
    show codeSize (.load type (UInt16.ofNat slot) :: loadParams (slot + type.width) rest) = _
    rw [Instruction.codeSize_cons, Instruction.size_load_of_large type (by omega),
      ih (by omega) (by omega), List.length_cons]
    omega

/-! ## The method

A forwarder calls one method, so its pool needs the entries for that, and its body the few bytes
around the loads. Both limits are told apart here, since only the second depends on nothing but the
descriptor. -/

/-- The receiver is one more parameter in front of the others. -/
theorem Forwarder.withReceiver_text (interfaceName : String) (d : MethodDescriptor) :
    withReceiver interfaceName d.text = MethodDescriptor.text
      { params := .object interfaceName :: d.params, result := d.result } := by
  refine String.toList_inj.1 ?_
  unfold withReceiver MethodDescriptor.text MethodDescriptor.chars
  simp [FieldType.chars]

/-- The bytes of a forwarder's body: one for the receiver, the loads of the parameters, three for
the call and one for the return. -/
def bodyLength (d : MethodDescriptor) : Nat := 1 + codeSize (loadParams 1 d.params) + 4

/-- Whether the body of a forwarder for methods with the descriptor fits the format. -/
def BodyFits (descriptor : String) : Prop :=
  ∃ d, MethodDescriptor.parse descriptor = .ok d ∧ bodyLength d ≤ 65535

instance (descriptor : String) : Decidable (BodyFits descriptor) :=
  match h : MethodDescriptor.parse descriptor with
  | .ok d => decidable_of_iff (bodyLength d ≤ 65535)
    ⟨fun hfits => ⟨d, h, hfits⟩, fun ⟨_, hparse, hfits⟩ => by
      rw [h] at hparse
      cases hparse
      exact hfits⟩
  | .error _ => .isFalse fun ⟨_, hparse, _⟩ => by
    rw [h] at hparse
    cases hparse

/-- For a descriptor that can be read, the body fits if its length does. -/
theorem bodyFits_iff {descriptor : String} {d : MethodDescriptor}
    (h : MethodDescriptor.parse descriptor = .ok d) :
    BodyFits descriptor ↔ bodyLength d ≤ 65535 := by
  unfold BodyFits
  rw [h]
  simp

/-- A body of code without handlers and attributes is written if it is short enough. -/
theorem exists_bytes_of_length {code : Code} (hlength : code.bytecode.length ≤ 65535)
    (hhandlers : code.handlers = []) (hattributes : code.attributes = []) (pool : ConstantPool) :
    ∃ bs, code.bytes pool = .ok bs pool := by
  unfold Code.bytes
  rw [if_neg (by omega), hhandlers, hattributes]
  exact ⟨_, rfl⟩

/-- Whatever a forwarder calls, its code can be assembled, and it always has the same length. The
index of the call takes two bytes however large it is. -/
theorem exists_assemble_forwarder (d : MethodDescriptor) (target : UInt16) :
    ∃ code, Instruction.assemble (.op Opcode.aload0 :: loadParams 1 d.params
        ++ [.withWord Opcode.invokeStatic target, .returnOf d.result]) = .ok code
      ∧ code.length = bodyLength d := by
  have hreturn : ∃ bs, Instruction.returnOf d.result = .plain bs := by
    cases d.result <;> exact ⟨_, rfl⟩
  have hplain : ∀ i ∈ .op Opcode.aload0 :: loadParams 1 d.params
      ++ [.withWord Opcode.invokeStatic target, .returnOf d.result], ∃ bs, i = .plain bs := by
    refine List.forall_mem_append.2 ⟨?_, ?_⟩
    · exact List.forall_mem_cons.2 ⟨⟨_, rfl⟩, fun i hi => exists_of_mem_loadParams hi⟩
    · exact List.forall_mem_cons.2 ⟨⟨_, rfl⟩, List.forall_mem_singleton.2 hreturn⟩
  have hsize : (Instruction.returnOf d.result).size 0 false = 1 := by
    cases d.result <;> rfl
  obtain ⟨code, hcode, hlength⟩ := Instruction.exists_assemble_of_plain hplain
  refine ⟨code, hcode, hlength.trans ?_⟩
  rw [Instruction.codeSize_append, Instruction.codeSize_cons, Instruction.codeSize_cons,
    Instruction.codeSize_cons, hsize]
  rfl

/-- **Which forwarders can be made**: those for whose call there is room in the pool, and whose body
fits. There is no third reason, since the descriptor has been read and the name of the attribute
needs no room before the class is written. -/
theorem Forwarder.exists_method_iff {f : Forwarder} {pool : ConstantPool} :
    (∃ m pool', f.method pool = .ok m pool')
      ↔ (∃ target pool',
          internMethod f.companion f.name f.companionDescriptor false pool = .ok target pool')
        ∧ bodyLength f.parsed ≤ 65535 := by
  constructor
  · rintro ⟨m, pool', hmethod⟩
    obtain ⟨target, mid, htarget, hmethod⟩ := Interning.bind_eq_ok.1 hmethod
    obtain ⟨bytecode, hbytecode, hset⟩ := Interning.lift_bind_eq_ok.1 hmethod
    obtain ⟨code, hassembled, hlength⟩ := exists_assemble_forwarder f.parsed target
    -- That the attribute was written is what tells that the body fits.
    obtain ⟨info, hinfo, _⟩ := Member.setCode_eq_ok hset
    have hfits : bytecode.length ≤ 65535 := (Code.bytes_eq_ok hinfo).1
    rw [hassembled] at hbytecode
    cases hbytecode
    exact ⟨⟨target, mid, htarget⟩, hlength ▸ hfits⟩
  · rintro ⟨⟨target, mid, htarget⟩, hfits⟩
    obtain ⟨code, hassembled, hlength⟩ := exists_assemble_forwarder f.parsed target
    -- In the other direction each step of making the method is run.
    let body : Code := {
      maxStack := UInt16.ofNat (max (1 + f.parsed.paramSlots) f.parsed.result.width)
      maxLocals := UInt16.ofNat (1 + f.parsed.paramSlots), bytecode := code }
    have hbody : body.bytecode.length ≤ 65535 := hlength ▸ hfits
    obtain ⟨info, hinfo⟩ := exists_bytes_of_length hbody rfl rfl mid
    let m : Member := { access := Access.publicFlag, name := f.name, descriptor := f.descriptor }
    let m' : Member := { m with attributes := Attribute.set Code.attributeName info m.attributes }
    have hset : m.setCode body mid = .ok m' mid :=
      Interning.bind_eq_ok.2 ⟨info, mid, hinfo, Interning.pure_eq_ok.2 ⟨rfl, rfl⟩⟩
    refine ⟨m', mid, Interning.bind_eq_ok.2 ⟨target, mid, htarget, ?_⟩⟩
    exact Interning.lift_bind_eq_ok.2 ⟨code, hassembled, hset⟩

/-! ## A method with too many parameters

The limit on a body is not out of reach for a descriptor that the format allows. -/

/-- A method with `n` parameters of type `int`. -/
def takingInts (n : Nat) : MethodDescriptor where
  params := List.replicate n (.base .int)
  result := .void

/-- The slots of parameters that take one each. -/
theorem widthOfAll_ints (n : Nat) : FieldType.widthOfAll (List.replicate n (.base .int)) = n := by
  induction n with
  | zero => rfl
  | succ n ih =>
    show 1 + FieldType.widthOfAll (List.replicate n (.base .int)) = n + 1
    rw [ih, Nat.add_comm]

/-- **The body of a forwarder can be too long**: the loads of parameters behind the first 255 slots
alone can take more than there can be. -/
theorem lt_bodyLength_takingInts {n : Nat} (hmany : 16384 ≤ n) (hslots : n ≤ 65280) :
    65535 < bodyLength (takingInts (255 + n)) := by
  have hback : codeSize (loadParams (1 + 255) (List.replicate n (.base .int))) = 4 * n := by
    have hfits : 1 + 255 + FieldType.widthOfAll (List.replicate n (.base .int)) ≤ 65536 := by
      rw [widthOfAll_ints]
      omega
    rw [codeSize_loadParams_of_large (by omega) hfits, List.length_replicate]
  unfold bodyLength takingInts
  simp only
  rw [← List.replicate_append_replicate, loadParams_append, Instruction.codeSize_append,
    widthOfAll_ints, hback]
  omega

end Weave
end ClassLoom
