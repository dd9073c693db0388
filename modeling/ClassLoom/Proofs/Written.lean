import ClassLoom.Attribute
import ClassLoom.Proofs.ConstantPool.Interning
import ClassLoom.Proofs.ReadsBack

/-!
# Written forms that intern

Written forms that refer to the constant pool read back under the pool that writing leaves, and
under all that have grown from it (`Writes`).

* `Writes.table`: tables whose entries are interned;
* `Attribute.writes`, `Attribute.writes_table`: attributes.
-/

namespace ClassLoom

open ConstantPool
open Interning (Appends)

/-- Whether what a computation writes reads back as `a`, under the pool that it leaves and under
all that grow from that. -/
def Writes {α : Type} (write : Interning Bytes) (read : ConstantPool → Reader α) (a : α) : Prop :=
  ∀ ⦃pool pool' : ConstantPool⦄ ⦃bs : Bytes⦄, Located pool → write pool = .ok bs pool' →
    ∀ later, Grown pool' later → ReadsBack (read later) bs a

/-- Entries written one after the other. The pool in which they are read must have grown from the
last one. -/
theorem Writes.mapM {α β : Type} {write : α → Interning Bytes} {read : ConstantPool → Reader β}
    (value : α → β) {items : List α} (happends : ∀ x ∈ items, Appends (write x))
    (hwrites : ∀ x ∈ items, Writes (write x) read (value x)) {pool pool' : ConstantPool}
    {parts : List Bytes} (hpool : Located pool) (h : items.mapM write pool = .ok parts pool')
    {later : ConstantPool} (hgrown : Grown pool' later) :
    List.Forall₂ (ReadsBack (read later)) parts (items.map value) := by
  induction items generalizing pool parts with
  | nil =>
    rw [List.mapM_nil] at h
    obtain ⟨rfl, rfl⟩ := Interning.pure_eq_ok.1 h
    exact .nil
  | cons x items ih =>
    obtain ⟨hhead, htail⟩ := List.forall_mem_cons.1 hwrites
    obtain ⟨hheadAppends, htailAppends⟩ := List.forall_mem_cons.1 happends
    rw [List.mapM_cons] at h
    obtain ⟨bs, mid, hbs, h⟩ := Interning.bind_eq_ok.1 h
    obtain ⟨more, last, hmore, hend⟩ := Interning.bind_eq_ok.1 h
    obtain ⟨rfl, rfl⟩ := Interning.pure_eq_ok.1 hend
    have hmid := hheadAppends.located_of_ok hpool hbs
    have hmidGrown := (Appends.mapM htailAppends).grown_of_ok hmore
    exact .cons (hhead hpool hbs later (hmidGrown.trans hgrown)) (ih htailAppends htail hmid hmore)

/-- **Tables whose entries are interned read back** if all their entries do. The count in front says
how many entries to read. -/
theorem Writes.table {α : Type} {write : α → Interning Bytes} {read : ConstantPool → Reader α}
    {items : List α} (happends : ∀ x ∈ items, Appends (write x))
    (hwrites : ∀ x ∈ items, Writes (write x) read x) :
    Writes (do
      let count ← Bytes.count16 items.length
      let parts ← items.mapM write
      return count ++ parts.flatten) (fun pool => Reader.table (read pool)) items := by
  intro pool pool' bs hpool h later hgrown
  obtain ⟨count, hcount, h⟩ := Interning.lift_bind_eq_ok.1 h
  obtain ⟨parts, mid, hparts, hend⟩ := Interning.bind_eq_ok.1 h
  obtain ⟨rfl, rfl⟩ := Interning.pure_eq_ok.1 hend
  have hall := Writes.mapM id happends hwrites hpool hparts hgrown
  rw [List.map_id] at hall
  exact .table hcount hall

/-! ## Attributes

The name of an attribute is interned when it is written, and looked up when it is read. -/

namespace Attribute

/-- Writing an attribute only adds to the pool. -/
theorem appends_bytes (a : Attribute) : Appends a.bytes := by
  refine (appends_internUtf8 a.name).bind fun _ => ?_
  split
  · exact .pure _
  · exact .throw _

theorem appends_tableBytes (attributes : List Attribute) : Appends (tableBytes attributes) :=
  (Appends.lift _).bind fun _ => (Appends.mapM fun a _ => appends_bytes a).bind fun _ => .pure _

/-- **A written attribute is read back.** Its name is looked up in the pool as it is then. -/
theorem writes (a : Attribute) : Writes a.bytes read a := by
  intro pool pool' bs hpool h later hgrown
  obtain ⟨name, mid, hname, h⟩ := Interning.bind_eq_ok.1 h
  split at h
  · next hlt =>
    obtain ⟨rfl, rfl⟩ := Interning.pure_eq_ok.1 h
    -- The name is looked up in a later pool, in which it is still found.
    have hfound := hgrown.getUtf8 (internUtf8_spec hpool hname)
    have hlength : (UInt32.ofNat a.info.length).toNat = a.info.length :=
      UInt32.toNat_ofNat_of_lt' hlt
    rw [List.append_assoc]
    refine (ReadsBack.word16 name).bind ((ReadsBack.word32 _).bind ?_)
    rw [hlength]
    have hrest := (ReadsBack.bytes a.info).bind
      (f := fun info => do
        let name ← later.getUtf8 name
        return ({ name, info } : Attribute))
      (ReadsBack.lift hfound (ReadsBack.pure a))
    rwa [List.append_nil] at hrest
  · cases h

/-- **A written table of attributes is read back**, in order. -/
theorem writes_table (attributes : List Attribute) :
    Writes (tableBytes attributes) readTable attributes :=
  Writes.table (fun a _ => appends_bytes a) fun a _ => writes a

end Attribute
end ClassLoom
