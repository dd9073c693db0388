import ClassLoom.ClassFile.Format
import ClassLoom.Proofs.ConstantPool.RoundTrip

/-!
# Class files with their indices

A class that is read has its symbols in the clear, and the indices that they were found under
are gone. An `IndexedClass` is the file before the look-ups: it keeps every index and every
spelling, so what is read and what is written are the same for it (`Exact`), and looking up
what it names gives the class (`IndexedClass.Denotes`).

* `IndexedClass.exact`: the written form of an indexed class is what is read as one;
* `IndexedClass.parse_eq_ok_iff`: a class is read where an indexed class denotes it.
-/

namespace ClassLoom

open ConstantPool

/-! ## Formats without look-ups

A format is `Exact` if reading and writing are inverse to each other, byte for byte. This goes
through parts and tables. Formats with look-ups are not exact, since a name can stand at several
indices; for those the indices are kept here, and looked up afterwards (`ReadsAs`). -/

section Formats

variable {α β : Type}

/-- Whether what is read as a value is what is written for it. -/
def Exact (p : Reader α) (write : α → Except ClassError Bytes) : Prop :=
  ∀ ⦃bs rest : Bytes⦄ ⦃a : α⦄,
    p bs = .ok (a, rest) ↔ ∃ taken, write a = .ok taken ∧ bs = taken ++ rest

/-- The written form of a table. -/
def tableForm (write : α → Except ClassError Bytes) (items : List α) :
    Except ClassError Bytes := do
  let count ← Bytes.count16 items.length
  let parts ← items.mapM write
  return count ++ parts.flatten

theorem Exact.readsBack {p : Reader α} {write : α → Except ClassError Bytes} (h : Exact p write)
    {a : α} {taken : Bytes} (ha : write a = .ok taken) : ReadsBack p taken a :=
  fun _ => h.2 ⟨taken, ha, rfl⟩

/-- A format is exact if what is written is read back and what is read is written so. -/
theorem Exact.of_readsBack {p : Reader α} {write : α → Except ClassError Bytes}
    (hback : ∀ a taken, write a = .ok taken → ReadsBack p taken a)
    (hforth : ∀ bs rest a, p bs = .ok (a, rest) →
      ∃ taken, write a = .ok taken ∧ bs = taken ++ rest) : Exact p write := by
  intro bs rest a
  constructor
  · exact hforth bs rest a
  · rintro ⟨taken, ha, rfl⟩
    exact hback a taken ha rest

/-- Items that are read one after the other are written one after the other. Each starts where the
one before it ends. -/
theorem Exact.times {p : Reader α} {write : α → Except ClassError Bytes} (h : Exact p write)
    {n : Nat} {bs rest : Bytes} {items : List α} (hread : Reader.times n p bs = .ok (items, rest)) :
    ∃ parts, items.mapM write = .ok parts ∧ bs = parts.flatten ++ rest := by
  induction n generalizing bs items with
  | zero =>
    cases hread
    exact ⟨[], rfl, rfl⟩
  | succ n ih =>
    obtain ⟨a, mid, more, ha, hmore, rfl⟩ := Reader.times_succ_eq_ok.1 hread
    obtain ⟨taken, htaken, rfl⟩ := h.1 ha
    obtain ⟨parts, hparts, rfl⟩ := ih hmore
    refine ⟨taken :: parts, ?_, by rw [List.flatten_cons, List.append_assoc]⟩
    rw [mapM_eq_ok] at hparts ⊢
    exact .cons htaken hparts

/-- **Tables are exact** if their entries are. The count is written again, and it was a word. So a
table is read from one row of bytes only. -/
theorem Exact.table {p : Reader α} {write : α → Except ClassError Bytes} (h : Exact p write) :
    Exact (Reader.table p) (tableForm write) := by
  intro bs rest items
  unfold tableForm
  constructor
  · intro hread
    obtain ⟨count, mid, hcount, hread⟩ := Reader.bind_eq_ok.1 hread
    rw [Reader.word16_eq_ok] at hcount
    have hlength := Reader.length_of_times hread
    obtain ⟨parts, hparts, rfl⟩ := h.times hread
    have hlt := count.toNat_lt
    -- The count that was read is the number of items, so writing them counts to it again.
    have hword : Bytes.count16 items.length = .ok (Bytes.word16 count) := by
      rw [Bytes.count16, hlength, if_pos hlt, UInt16.ofNat_toNat]
    refine ⟨_, bind_eq_ok.2 ⟨_, hword, bind_eq_ok.2 ⟨parts, hparts, rfl⟩⟩, ?_⟩
    rw [hcount, List.append_assoc]
  · rintro ⟨taken, hwrite, rfl⟩
    obtain ⟨count, hcount, hwrite⟩ := bind_eq_ok.1 hwrite
    obtain ⟨parts, hparts, hend⟩ := bind_eq_ok.1 hwrite
    cases hend
    have hall : List.Forall₂ (ReadsBack p) parts items :=
      ((mapM_eq_ok.1 hparts).imp fun _ _ ha => h.readsBack ha).flip
    exact ReadsBack.table hcount hall rest

/-- A table of words. -/
theorem exact_word16 : Exact Reader.word16 (fun w => .ok (Bytes.word16 w)) := by
  intro bs rest w
  rw [Reader.word16_eq_ok]
  constructor
  · intro h
    exact ⟨_, rfl, h⟩
  · rintro ⟨_, hw, h⟩
    cases hw
    exact h

/-- Whether one reader reads what the other one does and makes more of it: `R` relates what
both give. -/
def ReadsAs (p : Reader β) (q : Reader α) (R : α → β → Prop) : Prop :=
  ∀ ⦃bs rest : Bytes⦄ ⦃b : β⦄, p bs = .ok (b, rest) ↔ ∃ a, q bs = .ok (a, rest) ∧ R a b

/-- Items one after the other: what is made of each is related to what is read. Both readers go on
behind the same bytes. -/
theorem ReadsAs.times {p : Reader β} {q : Reader α} {R : α → β → Prop} (h : ReadsAs p q R)
    (n : Nat) : ReadsAs (Reader.times n p) (Reader.times n q) (List.Forall₂ R) := by
  intro bs rest items
  -- Both readers take item after item, and the rest that one leaves is what the other goes on with.
  induction n generalizing bs items with
  | zero =>
    constructor
    · intro hread
      cases hread
      exact ⟨[], rfl, .nil⟩
    · rintro ⟨raw, hread, hitems⟩
      cases hread
      cases hitems
      rfl
  | succ n ih =>
    simp only [Reader.times_succ_eq_ok]
    constructor
    · rintro ⟨b, mid, more, hb, hmore, rfl⟩
      obtain ⟨a, ha, hab⟩ := h.1 hb
      obtain ⟨raw, hraw, hitems⟩ := ih.1 hmore
      exact ⟨a :: raw, ⟨a, mid, raw, ha, hraw, rfl⟩, .cons hab hitems⟩
    · rintro ⟨_, ⟨a, mid, raw, ha, hraw, rfl⟩, hitems⟩
      obtain ⟨b, more, hab, hmore, rfl⟩ := List.forall₂_cons_left_iff.1 hitems
      exact ⟨b, mid, more, h.2 ⟨a, ha, hab⟩, ih.2 ⟨raw, hraw, hmore⟩, rfl⟩

/-- So are tables. -/
theorem ReadsAs.table {p : Reader β} {q : Reader α} {R : α → β → Prop} (h : ReadsAs p q R) :
    ReadsAs (Reader.table p) (Reader.table q) (List.Forall₂ R) := by
  intro bs rest items
  unfold Reader.table
  simp only [Reader.bind_eq_ok]
  constructor
  · rintro ⟨count, mid, hcount, hread⟩
    obtain ⟨raw, hraw, hitems⟩ := (h.times _).1 hread
    exact ⟨raw, ⟨count, mid, hcount, hraw⟩, hitems⟩
  · rintro ⟨raw, ⟨count, mid, hcount, hraw⟩, hitems⟩
    exact ⟨count, mid, hcount, (h.times _).2 ⟨raw, hraw, hitems⟩⟩

end Formats

/-! ## Attributes

An attribute begins with the index of its name. Everything else about it is a length and a
payload. -/

/-- An attribute with the index of its name. -/
structure IndexedAttribute where
  name : UInt16
  info : Bytes
  deriving DecidableEq, Repr

namespace IndexedAttribute

def read : Reader IndexedAttribute := do
  let name ← Reader.word16
  let length ← Reader.word32
  let info ← Reader.bytes length.toNat
  return { name, info }

def bytes (a : IndexedAttribute) : Except ClassError Bytes :=
  if a.info.length < 4294967296 then
    .ok (Bytes.word16 a.name ++ Bytes.word32 (UInt32.ofNat a.info.length) ++ a.info)
  else .error (.malformed "attribute length")

/-- An attribute is read as what it was written for, and written as what it was read from. The
length in front of its payload is that of the payload. -/
theorem exact : Exact read bytes := by
  refine .of_readsBack (fun a taken hwrite => ?_) fun bs rest a h => ?_
  · unfold bytes at hwrite
    split at hwrite
    · next hlt =>
      cases hwrite
      have hlength : (UInt32.ofNat a.info.length).toNat = a.info.length :=
        UInt32.toNat_ofNat_of_lt' hlt
      rw [List.append_assoc]
      refine (ReadsBack.word16 a.name).bind ((ReadsBack.word32 _).bind ?_)
      rw [hlength]
      exact (ReadsBack.bytes a.info).map
    · cases hwrite
  · obtain ⟨name, mid, hname, h⟩ := Reader.bind_eq_ok.1 h
    obtain ⟨length, mid', hlength, h⟩ := Reader.bind_eq_ok.1 h
    obtain ⟨info, mid'', hinfo, h⟩ := Reader.bind_eq_ok.1 h
    cases h
    rw [Reader.word16_eq_ok] at hname
    rw [Reader.word32_eq_ok] at hlength
    -- As many bytes were taken as the length said, so the length is written as it was read.
    obtain ⟨rfl, hcount⟩ := Reader.bytes_eq_ok.1 hinfo
    have hlt := length.toNat_lt
    refine ⟨Bytes.word16 name ++ Bytes.word32 length ++ info, ?_, ?_⟩
    · unfold bytes
      simp only [hcount, UInt32.ofNat_toNat]
      rw [if_pos (by omega)]
    · rw [hname, hlength, List.append_assoc, List.append_assoc]

/-- Whether the name is at the index. -/
structure Denotes (pool : ConstantPool) (x : IndexedAttribute) (a : Attribute) : Prop where
  name : pool.getUtf8 x.name = .ok a.name
  info : x.info = a.info

/-- Reading an attribute is reading it with the index of its name, and looking that up. The payload
is read in the same way by both. -/
theorem readsAs (pool : ConstantPool) : ReadsAs (Attribute.read pool) read (Denotes pool) := by
  intro bs rest a
  unfold Attribute.read read
  simp only [Reader.bind_eq_ok, Reader.lift_eq_ok]
  constructor
  · rintro ⟨name, mid, hname, length, mid', hlength, info, mid'', hinfo, text, _, ⟨htext, rfl⟩, h⟩
    cases h
    exact ⟨⟨name, info⟩, ⟨name, mid, hname, length, mid', hlength, info, _, hinfo, rfl⟩, htext, rfl⟩
  · rintro ⟨_, ⟨name, mid, hname, length, mid', hlength, info, mid'', hinfo, h⟩, hdenotes⟩
    cases h
    obtain ⟨text, info'⟩ := a
    obtain ⟨htext, rfl⟩ := hdenotes
    exact ⟨name, mid, hname, length, mid', hlength, info, _, hinfo, text, _, ⟨htext, rfl⟩, rfl⟩

end IndexedAttribute

/-! ## Members

A member has the indices of its name and its descriptor, and a table of attributes. -/

/-- A field or method with the indices of its symbols. -/
structure IndexedMember where
  access : UInt16
  name : UInt16
  descriptor : UInt16
  attributes : List IndexedAttribute
  deriving DecidableEq, Repr

namespace IndexedMember

def read : Reader IndexedMember := do
  let access ← Reader.word16
  let name ← Reader.word16
  let descriptor ← Reader.word16
  let attributes ← Reader.table IndexedAttribute.read
  return { access, name, descriptor, attributes }

def bytes (m : IndexedMember) : Except ClassError Bytes := do
  let attributes ← tableForm IndexedAttribute.bytes m.attributes
  return Bytes.word16 m.access ++ Bytes.word16 m.name ++ Bytes.word16 m.descriptor ++ attributes

/-- Members are exact, as all their parts are. They are read one behind the other. Three words come
first, and then a table of attributes. -/
theorem exact : Exact read bytes := by
  refine .of_readsBack (fun m taken hwrite => ?_) fun bs rest m h => ?_
  · obtain ⟨attributes, hattributes, h⟩ := bind_eq_ok.1 hwrite
    cases h
    simp only [List.append_assoc]
    exact (ReadsBack.word16 _).bind ((ReadsBack.word16 _).bind ((ReadsBack.word16 _).bind
      (IndexedAttribute.exact.table.readsBack hattributes).map))
  · simp only [read, Reader.bind_eq_ok, Reader.word16_eq_ok] at h
    obtain ⟨access, _, rfl, name, _, rfl, descriptor, _, rfl, attributes, mid, hattributes, h⟩ := h
    cases h
    obtain ⟨taken, htaken, rfl⟩ := IndexedAttribute.exact.table.1 hattributes
    exact ⟨_, bind_eq_ok.2 ⟨taken, htaken, rfl⟩, by simp only [List.append_assoc]⟩

/-- Whether the symbols are at the indices. -/
structure Denotes (pool : ConstantPool) (x : IndexedMember) (m : Member) : Prop where
  access : x.access = m.access
  name : pool.getUtf8 x.name = .ok m.name
  descriptor : pool.getUtf8 x.descriptor = .ok m.descriptor
  attributes : List.Forall₂ (IndexedAttribute.Denotes pool) x.attributes m.attributes

/-- Reading a member is reading it with indices, and looking these up. The order of the look-ups
does not matter, for nothing is read between them that depends on them. -/
theorem readsAs (pool : ConstantPool) : ReadsAs (Member.read pool) read (Denotes pool) := by
  intro bs rest m
  unfold Member.read read Attribute.readTable
  simp only [Reader.bind_eq_ok, Reader.lift_eq_ok]
  constructor
  · rintro ⟨access, mid, haccess, nameAt, mid', hnameAt, name, _, ⟨hname, rfl⟩, descriptorAt, mid'',
      hdescriptorAt, descriptor, _, ⟨hdescriptor, rfl⟩, attributes, last, hattributes, h⟩
    cases h
    obtain ⟨raw, hraw, hdenotes⟩ := (IndexedAttribute.readsAs pool).table.1 hattributes
    exact ⟨⟨access, nameAt, descriptorAt, raw⟩, ⟨access, mid, haccess, nameAt, mid', hnameAt,
      descriptorAt, mid'', hdescriptorAt, raw, _, hraw, rfl⟩, rfl, hname, hdescriptor, hdenotes⟩
  · rintro ⟨_, ⟨access, mid, haccess, nameAt, mid', hnameAt, descriptorAt, mid'', hdescriptorAt, raw,
      last, hraw, h⟩, hdenotes⟩
    cases h
    obtain ⟨_, name, descriptor, attributes⟩ := m
    obtain ⟨rfl, hname, hdescriptor, hattributes⟩ := hdenotes
    exact ⟨access, mid, haccess, nameAt, mid', hnameAt, name, _, ⟨hname, rfl⟩, descriptorAt, mid'',
      hdescriptorAt, descriptor, _, ⟨hdescriptor, rfl⟩, attributes, _,
      (IndexedAttribute.readsAs pool).table.2 ⟨raw, hraw, hattributes⟩, rfl⟩

end IndexedMember

/-! ## Everything behind the pool

What stands behind the pool is exact with its indices. What the names are is told by the pool in
front of it. -/

/-- What stands behind the pool of a class, with the indices of all symbols. -/
structure IndexedBody where
  access : UInt16
  name : UInt16
  /-- Zero stands for no superclass. -/
  superName : UInt16
  interfaces : List UInt16
  fields : List IndexedMember
  methods : List IndexedMember
  attributes : List IndexedAttribute
  deriving DecidableEq, Repr

namespace IndexedBody

def read : Reader IndexedBody := do
  let access ← Reader.word16
  let name ← Reader.word16
  let superName ← Reader.word16
  let interfaces ← Reader.table Reader.word16
  let fields ← Reader.table IndexedMember.read
  let methods ← Reader.table IndexedMember.read
  let attributes ← Reader.table IndexedAttribute.read
  return { access, name, superName, interfaces, fields, methods, attributes }

def bytes (x : IndexedBody) : Except ClassError Bytes := do
  let interfaces ← tableForm (fun w => .ok (Bytes.word16 w)) x.interfaces
  let fields ← tableForm IndexedMember.bytes x.fields
  let methods ← tableForm IndexedMember.bytes x.methods
  let attributes ← tableForm IndexedAttribute.bytes x.attributes
  return Bytes.word16 x.access ++ Bytes.word16 x.name ++ Bytes.word16 x.superName ++ interfaces
    ++ fields ++ methods ++ attributes

/-- So is everything behind the pool. The order is that of the format, from the access flags to the
attributes of the class. -/
theorem exact : Exact read bytes := by
  refine .of_readsBack (fun x taken hwrite => ?_) fun bs rest x h => ?_
  · obtain ⟨interfaces, hinterfaces, hwrite⟩ := bind_eq_ok.1 hwrite
    obtain ⟨fields, hfields, hwrite⟩ := bind_eq_ok.1 hwrite
    obtain ⟨methods, hmethods, hwrite⟩ := bind_eq_ok.1 hwrite
    obtain ⟨attributes, hattributes, h⟩ := bind_eq_ok.1 hwrite
    cases h
    simp only [List.append_assoc]
    exact (ReadsBack.word16 _).bind ((ReadsBack.word16 _).bind ((ReadsBack.word16 _).bind
      ((exact_word16.table.readsBack hinterfaces).bind
      ((IndexedMember.exact.table.readsBack hfields).bind
      ((IndexedMember.exact.table.readsBack hmethods).bind
      (IndexedAttribute.exact.table.readsBack hattributes).map)))))
  · simp only [read, Reader.bind_eq_ok, Reader.word16_eq_ok] at h
    obtain ⟨access, _, rfl, name, _, rfl, superName, _, rfl, interfaces, mid, hinterfaces, fields,
      mid', hfields, methods, mid'', hmethods, attributes, last, hattributes, h⟩ := h
    cases h
    obtain ⟨interfaceBytes, hinterfaceBytes, rfl⟩ := exact_word16.table.1 hinterfaces
    obtain ⟨fieldBytes, hfieldBytes, rfl⟩ := IndexedMember.exact.table.1 hfields
    obtain ⟨methodBytes, hmethodBytes, rfl⟩ := IndexedMember.exact.table.1 hmethods
    obtain ⟨attributeBytes, hattributeBytes, rfl⟩ := IndexedAttribute.exact.table.1 hattributes
    refine ⟨_, bind_eq_ok.2 ⟨_, hinterfaceBytes, bind_eq_ok.2 ⟨_, hfieldBytes, bind_eq_ok.2
      ⟨_, hmethodBytes, bind_eq_ok.2 ⟨_, hattributeBytes, rfl⟩⟩⟩⟩, ?_⟩
    simp only [List.append_assoc]

/-- Whether the superclass is at the index; zero stands for none. -/
def DenotesSuper (pool : ConstantPool) (i : UInt16) : Option String → Prop
  | none => i = 0
  | some name => i ≠ 0 ∧ pool.getClassName i = .ok name

/-- Whether the symbols are at the indices. -/
structure Denotes (pool : ConstantPool) (x : IndexedBody) (c : ClassFile) : Prop where
  access : x.access = c.access
  name : pool.getClassName x.name = .ok c.name
  superName : DenotesSuper pool x.superName c.superName
  interfaces : List.Forall₂ (fun i name => pool.getClassName i = .ok name) x.interfaces c.interfaces
  fields : List.Forall₂ (IndexedMember.Denotes pool) x.fields c.fields
  methods : List.Forall₂ (IndexedMember.Denotes pool) x.methods c.methods
  attributes : List.Forall₂ (IndexedAttribute.Denotes pool) x.attributes c.attributes

/-- A class name is read as an index. -/
theorem readsAs_className (pool : ConstantPool) : ReadsAs (ClassFile.readClassName pool)
    Reader.word16 (fun i name => pool.getClassName i = .ok name) := by
  intro bs rest name
  unfold ClassFile.readClassName
  simp only [Reader.bind_eq_ok, Reader.lift_eq_ok]
  constructor
  · rintro ⟨i, mid, hi, hname, rfl⟩
    exact ⟨i, hi, hname⟩
  · rintro ⟨i, hi, hname⟩
    exact ⟨i, _, hi, hname, rfl⟩

/-- The superclass is read as an index, of which zero stands for none. Only the class at the root
has none. -/
theorem readsAs_superName (pool : ConstantPool) :
    ReadsAs (ClassFile.readSuperName pool) Reader.word16 (DenotesSuper pool) := by
  intro bs rest superName
  unfold ClassFile.readSuperName
  simp only [Reader.bind_eq_ok]
  constructor
  -- Index zero is read as no superclass. Every other one has to name a class.
  · rintro ⟨i, mid, hi, h⟩
    split at h
    · next hzero =>
      cases h
      exact ⟨i, hi, hzero⟩
    · next hne =>
      obtain ⟨name, last, hlift, h⟩ := Reader.bind_eq_ok.1 h
      cases h
      obtain ⟨hname, rfl⟩ := Reader.lift_eq_ok.1 hlift
      exact ⟨i, hi, hne, hname⟩
  · rintro ⟨i, hi, hdenotes⟩
    refine ⟨i, rest, hi, ?_⟩
    cases superName with
    | none =>
      have hzero : i = 0 := hdenotes
      rw [if_pos hzero]
      rfl
    | some name =>
      obtain ⟨hne, hname⟩ := hdenotes
      rw [if_neg hne]
      exact Reader.bind_eq_ok.2 ⟨name, rest, Reader.lift_eq_ok.2 ⟨hname, rfl⟩, rfl⟩

/-- Reads what stands behind the pool of a class. -/
def readClass (minor major : UInt16) (pool : ConstantPool) : Reader ClassFile := do
  let access ← Reader.word16
  let name ← ClassFile.readClassName pool
  let superName ← ClassFile.readSuperName pool
  let interfaces ← Reader.table (ClassFile.readClassName pool)
  let fields ← Reader.table (Member.read pool)
  let methods ← Reader.table (Member.read pool)
  let attributes ← Attribute.readTable pool
  return { minor, major, pool, access, name, superName, interfaces, fields, methods, attributes }

/-- Reading what stands behind the pool is reading it with indices, and looking all of them up. The
order of the parts is that of the format. -/
theorem readsAs (minor major : UInt16) (pool : ConstantPool) :
    ReadsAs (readClass minor major pool) read (fun x c =>
      (minor = c.minor ∧ major = c.major ∧ pool = c.pool) ∧ x.Denotes pool c) := by
  intro bs rest c
  simp only [readClass, read, Reader.bind_eq_ok]
  constructor
  · rintro ⟨access, mid, haccess, name, mid₁, hname, superName, mid₂, hsuperName, interfaces, mid₃,
      hinterfaces, fields, mid₄, hfields, methods, mid₅, hmethods, attributes, last, hattributes, h⟩
    cases h
    -- Every part that has been read has an index in its place, which denotes it.
    obtain ⟨nameAt, hnameAt, hname⟩ := (readsAs_className pool).1 hname
    obtain ⟨superAt, hsuperAt, hsuperName⟩ := (readsAs_superName pool).1 hsuperName
    obtain ⟨interfacesAt, hinterfacesAt, hinterfaces⟩ :=
      (readsAs_className pool).table.1 hinterfaces
    obtain ⟨fieldsAt, hfieldsAt, hfields⟩ := (IndexedMember.readsAs pool).table.1 hfields
    obtain ⟨methodsAt, hmethodsAt, hmethods⟩ := (IndexedMember.readsAs pool).table.1 hmethods
    obtain ⟨attributesAt, hattributesAt, hattributes⟩ :=
      (IndexedAttribute.readsAs pool).table.1 hattributes
    exact ⟨⟨access, nameAt, superAt, interfacesAt, fieldsAt, methodsAt, attributesAt⟩,
      ⟨access, mid, haccess, nameAt, _, hnameAt, superAt, _, hsuperAt, interfacesAt, _,
        hinterfacesAt, fieldsAt, _, hfieldsAt, methodsAt, _, hmethodsAt, attributesAt, _,
        hattributesAt, rfl⟩,
      ⟨rfl, rfl, rfl⟩, rfl, hname, hsuperName, hinterfaces, hfields, hmethods, hattributes⟩
  · rintro ⟨_, ⟨access, mid, haccess, nameAt, mid₁, hnameAt, superAt, mid₂, hsuperAt, interfacesAt,
      mid₃, hinterfacesAt, fieldsAt, mid₄, hfieldsAt, methodsAt, mid₅, hmethodsAt, attributesAt,
      last, hattributesAt, h⟩, ⟨rfl, rfl, rfl⟩, hdenotes⟩
    cases h
    obtain ⟨minor, major, pool, _, name, superName, interfaces, fields, methods, attributes⟩ := c
    obtain ⟨rfl, hname, hsuperName, hinterfaces, hfields, hmethods, hattributes⟩ := hdenotes
    exact ⟨access, mid, haccess, name, _, (readsAs_className pool).2 ⟨nameAt, hnameAt, hname⟩,
      superName, _, (readsAs_superName pool).2 ⟨superAt, hsuperAt, hsuperName⟩,
      interfaces, _, (readsAs_className pool).table.2 ⟨interfacesAt, hinterfacesAt, hinterfaces⟩,
      fields, _, (IndexedMember.readsAs pool).table.2 ⟨fieldsAt, hfieldsAt, hfields⟩,
      methods, _, (IndexedMember.readsAs pool).table.2 ⟨methodsAt, hmethodsAt, hmethods⟩,
      attributes, _, (IndexedAttribute.readsAs pool).table.2
        ⟨attributesAt, hattributesAt, hattributes⟩, rfl⟩

end IndexedBody

/-! ## Class files

The pool itself is not exact either: a text can be spelled in several ways. With the spelling of
each constant it is. -/

/-- A class file with the spellings of its constants and the indices of its symbols. -/
structure IndexedClass where
  minor : UInt16
  major : UInt16
  constants : List SpelledConstant
  body : IndexedBody
  deriving DecidableEq, Repr

namespace IndexedClass

def read : Reader IndexedClass := do
  let found ← Reader.word32
  if found ≠ ClassFile.magic then throw (.badMagic found)
  let minor ← Reader.word16
  let major ← Reader.word16
  let constants ← SpelledConstant.readAll
  let body ← IndexedBody.read
  return { minor, major, constants, body }

/-- Reads an indexed class that takes up all of `bs`. -/
def parse (bs : Bytes) : Except ClassError IndexedClass := Reader.all read bs

def bytes (x : IndexedClass) : Except ClassError Bytes := do
  let constants ← SpelledConstant.allBytes x.constants
  let body ← x.body.bytes
  return Bytes.word32 ClassFile.magic ++ Bytes.word16 x.minor ++ Bytes.word16 x.major ++ constants
    ++ body

/-- Everything of a class file behind the number that it starts with. The magic number is checked
before anything else is read. -/
theorem header_eq_ok {α : Type} {p : UInt16 → UInt16 → Reader α} {bs rest : Bytes} {a : α} :
    (do
      let found ← Reader.word32
      if found ≠ ClassFile.magic then throw (.badMagic found)
      let minor ← Reader.word16
      let major ← Reader.word16
      p minor major : Reader α) bs = .ok (a, rest) ↔ ∃ minor major mid,
        bs = Bytes.word32 ClassFile.magic ++ (Bytes.word16 minor ++ (Bytes.word16 major ++ mid))
          ∧ p minor major mid = .ok (a, rest) := by
  constructor
  · intro h
    obtain ⟨found, mid, hfound, h⟩ := Reader.bind_eq_ok.1 h
    split at h
    · cases h
    · next hmagic =>
      obtain ⟨minor, mid₁, hminor, h⟩ := Reader.bind_eq_ok.1 h
      obtain ⟨major, mid₂, hmajor, h⟩ := Reader.bind_eq_ok.1 h
      -- All three numbers are known by their bytes, and the first one is the magic number.
      rw [Reader.word32_eq_ok, not_not.1 hmagic] at hfound
      rw [Reader.word16_eq_ok] at hminor hmajor
      exact ⟨minor, major, mid₂, by rw [hfound, hminor, hmajor], h⟩
  · rintro ⟨minor, major, mid, rfl, h⟩
    refine Reader.bind_eq_ok.2 ⟨_, _, Reader.word32_append _ _, ?_⟩
    rw [if_neg (by simp)]
    exact Reader.bind_eq_ok.2 ⟨minor, _, Reader.word16_append _ _, Reader.bind_eq_ok.2
      ⟨major, _, Reader.word16_append _ _, h⟩⟩

/-- The parts of an indexed class that is read. Its constants are those that are spelled in the
pool, without being looked at. -/
theorem read_eq_ok_iff {bs rest : Bytes} {x : IndexedClass} :
    read bs = .ok (x, rest) ↔ ∃ mid last,
      bs = Bytes.word32 ClassFile.magic ++ (Bytes.word16 x.minor ++ (Bytes.word16 x.major ++ mid))
        ∧ SpelledConstant.readAll mid = .ok (x.constants, last)
        ∧ IndexedBody.read last = .ok (x.body, rest) := by
  refine header_eq_ok.trans ⟨?_, ?_⟩
  · rintro ⟨minor, major, mid, rfl, h⟩
    obtain ⟨constants, last, hconstants, h⟩ := Reader.bind_eq_ok.1 h
    obtain ⟨body, last', hbody, h⟩ := Reader.bind_eq_ok.1 h
    cases h
    exact ⟨mid, last, rfl, hconstants, hbody⟩
  · rintro ⟨mid, last, rfl, hconstants, hbody⟩
    exact ⟨x.minor, x.major, mid, rfl, Reader.bind_eq_ok.2 ⟨x.constants, last, hconstants,
      Reader.bind_eq_ok.2 ⟨x.body, rest, hbody, rfl⟩⟩⟩

/-- **What is parsed is written as it was**, spellings and indices included. -/
theorem bytes_of_parse {bs : Bytes} {x : IndexedClass} (h : parse bs = .ok x) :
    x.bytes = .ok bs := by
  obtain ⟨mid, last, rfl, hconstants, hbody⟩ := read_eq_ok_iff.1 (Reader.all_eq_ok.1 h)
  obtain ⟨constantBytes, hconstantBytes, rfl⟩ := SpelledConstant.bytes_of_readAll hconstants
  obtain ⟨bodyBytes, hbodyBytes, rfl⟩ := IndexedBody.exact.1 hbody
  refine bind_eq_ok.2 ⟨_, hconstantBytes, bind_eq_ok.2 ⟨_, hbodyBytes, ?_⟩⟩
  simp only [List.append_assoc, List.append_nil]
  rfl

/-- Whether a class is what the constants spell and the indices stand for. -/
structure Denotes (x : IndexedClass) (c : ClassFile) : Prop where
  minor : x.minor = c.minor
  major : x.major = c.major
  constants : ∃ cs, List.Forall₂ (fun s c => SpelledConstant.constant? s = some c) x.constants cs
    ∧ Pushed .empty cs c.pool
  body : x.body.Denotes c.pool c

/-- The parts of a class that is read. -/
theorem readClass_eq_ok_iff {bs rest : Bytes} {c : ClassFile} :
    ClassFile.read bs = .ok (c, rest) ↔ ∃ minor major mid,
      bs = Bytes.word32 ClassFile.magic ++ (Bytes.word16 minor ++ (Bytes.word16 major ++ mid))
        ∧ ∃ pool last, ConstantPool.read mid = .ok (pool, last)
          ∧ IndexedBody.readClass minor major pool last = .ok (c, rest) := by
  refine header_eq_ok.trans ⟨?_, ?_⟩
  · rintro ⟨minor, major, mid, hbs, h⟩
    exact ⟨minor, major, mid, hbs, Reader.bind_eq_ok.1 h⟩
  · rintro ⟨minor, major, mid, hbs, h⟩
    exact ⟨minor, major, mid, hbs, Reader.bind_eq_ok.2 h⟩

/-- **A class is parsed where an indexed class is that denotes it.** So all that parsing forgets is
which spelling and which index it was. -/
theorem parse_eq_ok_iff {bs : Bytes} {c : ClassFile} :
    ClassFile.parse bs = .ok c ↔ ∃ x, parse bs = .ok x ∧ x.Denotes c := by
  unfold ClassFile.parse parse
  simp only [Reader.all_eq_ok, readClass_eq_ok_iff, read_eq_ok_iff]
  constructor
  · rintro ⟨minor, major, mid, rfl, pool, last, hpool, h⟩
    obtain ⟨constants, cs, hconstants, hspelled, hpushed⟩ := ConstantPool.read_eq_ok_iff.1 hpool
    obtain ⟨body, hbody, ⟨rfl, rfl, rfl⟩, hdenotes⟩ := (IndexedBody.readsAs minor major pool).1 h
    exact ⟨⟨c.minor, c.major, constants, body⟩, ⟨mid, last, rfl, hconstants, hbody⟩, rfl, rfl,
      ⟨cs, hspelled, hpushed⟩, hdenotes⟩
  · rintro ⟨x, ⟨mid, last, rfl, hconstants, hbody⟩, hminor, hmajor, ⟨cs, hspelled, hpushed⟩,
      hdenotes⟩
    have hpool := ConstantPool.read_eq_ok_iff.2 ⟨x.constants, cs, hconstants, hspelled, hpushed⟩
    exact ⟨x.minor, x.major, mid, rfl, c.pool, last, hpool, (IndexedBody.readsAs _ _ _).2
      ⟨x.body, hbody, ⟨hminor, hmajor, rfl⟩, hdenotes⟩⟩

end IndexedClass

/-- The pool of a parsed class was read. -/
theorem reachable_of_parse {bs : Bytes} {c : ClassFile} (h : ClassFile.parse bs = .ok c) :
    Reachable c.pool := by
  obtain ⟨minor, major, mid, _, pool, last, hpool, hclass⟩ :=
    IndexedClass.readClass_eq_ok_iff.1 (Reader.all_eq_ok.1 h)
  obtain ⟨_, _, ⟨_, _, rfl⟩, _⟩ := (IndexedBody.readsAs minor major pool).1 hclass
  exact .read hpool

end ClassLoom
