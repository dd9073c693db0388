import ClassLoom.Proofs.ClassFile.Overflow
import ClassLoom.Proofs.ConstantPool.Symbols

/-!
# Classes that can be written

Writing a class interns the symbols that it names outside its bodies once more, and puts counts
and lengths in front of its tables and payloads. It succeeds where these fit, the symbols fit into
the pool, and no text of the pool is too long.

* `Interning.Needs`: what a computation that writes something needs;
* `ClassFile.bytes_ok_iff`: the classes that can be written;
* `ClassFile.exists_bytes`: enough room for it.
-/

namespace ClassLoom

open ConstantPool

/-! ## Pools

A pool can be written if its texts are short enough. Interning adds texts only, so it is enough to
know which. -/

/-- A pool that can be written has no constant that cannot. -/
theorem ConstantPool.writable_of_bytes {pool : ConstantPool} {bs : Bytes}
    (h : pool.bytes = .ok bs) : pool.Writable := by
  unfold ConstantPool.bytes at h
  split at h
  · obtain ⟨parts, hparts, _⟩ := bind_eq_ok.1 h
    exact exists_ok_of_mapM hparts
  · cases h

/-- Symbols that are short enough leave a pool that can be written. -/
theorem OnlyOverflows.internAll {symbols : List Symbol}
    (h : ∀ symbol ∈ symbols, WritableText symbol.name) :
    Interning.OnlyOverflows (internAll symbols) := by
  induction symbols with
  | nil => exact .pure ()
  | cons symbol rest ih =>
    obtain ⟨hsymbol, hrest⟩ := List.forall_mem_cons.1 h
    refine Interning.OnlyOverflows.bind ?_ fun _ => ih hrest
    cases symbol with
    | text t => exact .internUtf8 hsymbol
    | className name => exact .internClass hsymbol

/-! ## What writing needs

Writing a class does two things that can fail: it writes counts and lengths into few bytes, and it
interns names. `Needs` says of a computation which symbols it interns and which conditions it
checks, and is put together along the way in which the bytes are. -/

theorem Bytes.exists_count16 (n : Nat) : (∃ bs, Bytes.count16 n = .ok bs) ↔ n < 65536 := by
  unfold Bytes.count16
  split <;> simp_all

namespace Interning

/-- Whether a computation succeeds exactly where something fits and symbols can be interned, and
leaves the pool that interning them leaves. -/
def Needs {α : Type} (x : Interning α) (symbols : List Symbol) (fits : Prop) : Prop :=
  ∀ pool pool', (∃ a, x pool = .ok a pool') ↔ fits ∧ internAll symbols pool = .ok () pool'

namespace Needs

variable {α β : Type} {symbols symbols' : List Symbol} {p q : Prop}

/-- A result needs nothing. -/
theorem pure (a : α) : Needs (pure a : Interning α) [] True := by
  intro pool pool'
  constructor
  · rintro ⟨b, h⟩
    obtain ⟨_, rfl⟩ := pure_eq_ok.1 h
    exact ⟨trivial, rfl⟩
  · rintro ⟨_, h⟩
    obtain ⟨_, rfl⟩ := pure_eq_ok.1 h
    exact ⟨a, rfl⟩

/-- A check needs what it checks, and no symbols. -/
theorem lift {x : Except ClassError α} (hx : (∃ a, x = .ok a) ↔ p) :
    Needs (liftM x : Interning α) [] p := by
  intro pool pool'
  rw [← hx]
  constructor
  · rintro ⟨a, h⟩
    obtain ⟨ha, rfl⟩ := lift_eq_ok.1 h
    exact ⟨⟨a, ha⟩, rfl⟩
  · rintro ⟨⟨a, ha⟩, h⟩
    obtain ⟨_, rfl⟩ := pure_eq_ok.1 h
    exact ⟨a, lift_eq_ok.2 ⟨ha, rfl⟩⟩

/-- The same of a condition that is looked at on the way. A failed look leaves the pool as it is, so
no symbol is missing for it. -/
theorem check [Decidable p] (a : α) (e : ClassError) :
    Needs (if p then return a else throw e : Interning α) [] p := by
  -- What is returned needs nothing; what is thrown comes from no pool.
  by_cases hp : p
  · rw [if_pos hp]
    simpa only [hp] using pure a
  · rw [if_neg hp]
    intro pool pool'
    constructor
    · rintro ⟨b, h⟩
      cases h
    · rintro ⟨h, _⟩
      exact absurd h hp

/-- Interning a symbol needs that symbol. -/
theorem intern (symbol : Symbol) : Needs symbol.intern [symbol] True := by
  intro pool pool'
  constructor
  · rintro ⟨slot, h⟩
    exact ⟨trivial, bind_eq_ok.2 ⟨slot, pool', h, rfl⟩⟩
  · rintro ⟨_, h⟩
    obtain ⟨slot, mid, hslot, hend⟩ := bind_eq_ok.1 h
    obtain ⟨_, rfl⟩ := pure_eq_ok.1 hend
    exact ⟨slot, hslot⟩

/-- Two computations need the symbols of both, in their order, and both conditions. The second one
starts from the pool that the first one leaves. -/
theorem bind {x : Interning α} {f : α → Interning β} (hx : Needs x symbols p)
    (hf : ∀ a, Needs (f a) symbols' q) : Needs (x >>= f) (symbols ++ symbols') (p ∧ q) := by
  intro pool pool'
  -- The pool between the two computations is the one between the two lists of symbols.
  rw [internAll_append_eq_ok]
  constructor
  · rintro ⟨b, h⟩
    obtain ⟨a, mid, ha, hb⟩ := bind_eq_ok.1 h
    obtain ⟨hp, hmid⟩ := (hx pool mid).1 ⟨a, ha⟩
    obtain ⟨hq, hend⟩ := (hf a mid pool').1 ⟨b, hb⟩
    exact ⟨⟨hp, hq⟩, mid, hmid, hend⟩
  · rintro ⟨⟨hp, hq⟩, mid, hmid, hend⟩
    obtain ⟨a, ha⟩ := (hx pool mid).2 ⟨hp, hmid⟩
    obtain ⟨b, hb⟩ := (hf a mid pool').2 ⟨hq, hend⟩
    exact ⟨b, bind_eq_ok.2 ⟨a, mid, ha, hb⟩⟩

theorem map {x : Interning α} (hx : Needs x symbols p) (f : α → β) :
    Needs (do return f (← x)) symbols p := by
  have h := hx.bind fun a => pure (f a)
  rwa [List.append_nil, and_true] at h

/-- A traversal needs what every step needs. The symbols are in the order of the steps, some of them
more than once. -/
theorem mapM {f : α → Interning β} {needed : α → List Symbol} {fits : α → Prop} {xs : List α}
    (h : ∀ x ∈ xs, Needs (f x) (needed x) (fits x)) :
    Needs (xs.mapM f) (xs.flatMap needed) (∀ x ∈ xs, fits x) := by
  induction xs with
  | nil =>
    rw [List.mapM_nil]
    have hnone := pure ([] : List β)
    simpa using hnone
  | cons x xs ih =>
    obtain ⟨hx, hxs⟩ := List.forall_mem_cons.1 h
    rw [List.mapM_cons, List.flatMap_cons, List.forall_mem_cons]
    exact hx.bind fun y => (ih hxs).map fun ys => y :: ys

/-- A table needs what its items need, and not too many of them. -/
theorem table {f : α → Interning Bytes} {needed : α → List Symbol} {fits : α → Prop} {xs : List α}
    (h : ∀ x ∈ xs, Needs (f x) (needed x) (fits x)) :
    Needs (do
      let count ← Bytes.count16 xs.length
      let parts ← xs.mapM f
      return count ++ parts.flatten)
      (xs.flatMap needed) (xs.length < 65536 ∧ ∀ x ∈ xs, fits x) := by
  exact (lift (Bytes.exists_count16 xs.length)).bind fun count =>
    (mapM h).map fun parts => count ++ parts.flatten

end Needs
end Interning

/-! ## Classes

For each part of a class there is the list of its symbols, in the order in which they are interned,
and the condition that its counts and lengths fit. -/

open Interning (Needs)

namespace Attribute

/-- What is interned when an attribute is written. -/
def symbols (a : Attribute) : List Symbol := [.text a.name]

/-- Whether the length of a payload can be written. -/
def Fits (a : Attribute) : Prop := a.info.length < 4294967296

instance (a : Attribute) : Decidable a.Fits := inferInstanceAs (Decidable (_ < _))

/-- Whether a table of attributes can be written, as far as its counts and lengths go. -/
def TableFits (attributes : List Attribute) : Prop :=
  attributes.length < 65536 ∧ ∀ a ∈ attributes, a.Fits

/-- An attribute needs its name, and a length that fits. -/
theorem needs_bytes (a : Attribute) : Needs a.bytes a.symbols a.Fits := by
  have h := (Needs.intern (.text a.name)).bind fun name =>
    Needs.check (p := a.info.length < 4294967296)
      (Bytes.word16 name ++ Bytes.word32 (UInt32.ofNat a.info.length) ++ a.info)
      (.malformed "attribute length")
  rwa [true_and, List.append_nil] at h

theorem needs_tableBytes (attributes : List Attribute) :
    Needs (tableBytes attributes) (attributes.flatMap symbols) (TableFits attributes) :=
  Needs.table fun a _ => a.needs_bytes

end Attribute

namespace Member

/-- What is interned when a member is written. -/
def symbols (m : Member) : List Symbol :=
  .text m.name :: .text m.descriptor :: m.attributes.flatMap Attribute.symbols

/-- A member interns its name and its type, and then the names of its attributes. -/
theorem symbols_eq (m : Member) :
    m.symbols = .text m.name :: .text m.descriptor :: (m.attributes.map (·.name)).map .text := by
  rw [List.map_map, List.map_eq_flatMap]
  rfl

/-- Whether a table of members can be written, as far as its counts and lengths go. -/
def TableFits (members : List Member) : Prop :=
  members.length < 65536 ∧ ∀ m ∈ members, Attribute.TableFits m.attributes

/-- This is what writing it needs. -/
theorem needs_bytes (m : Member) : Needs m.bytes m.symbols (Attribute.TableFits m.attributes) := by
  have h := (Needs.intern (.text m.name)).bind fun name =>
    (Needs.intern (.text m.descriptor)).bind fun descriptor =>
      (Attribute.needs_tableBytes m.attributes).map fun attributes =>
        Bytes.word16 m.access ++ Bytes.word16 name ++ Bytes.word16 descriptor ++ attributes
  rwa [true_and, true_and] at h

theorem needs_tableBytes (members : List Member) :
    Needs (tableBytes members) (members.flatMap symbols) (TableFits members) :=
  Needs.table fun m _ => m.needs_bytes

end Member

namespace ClassFile

/-- What is interned when a class is written, in this order. -/
def symbols (c : ClassFile) : List Symbol :=
  .className c.name :: c.superName.toList.map .className ++ c.interfaces.map .className
    ++ c.fields.flatMap Member.symbols ++ c.methods.flatMap Member.symbols
    ++ c.attributes.flatMap Attribute.symbols

/-- Whether the counts and lengths of a class can be written. -/
structure TablesFit (c : ClassFile) : Prop where
  interfaces : c.interfaces.length < 65536
  fields : Member.TableFits c.fields
  methods : Member.TableFits c.methods
  attributes : Attribute.TableFits c.attributes

/-- The superclass needs its name, if there is one. -/
theorem needs_superIndex (name : Option String) :
    Needs (superIndex name) (name.toList.map .className) True := by
  cases name with
  | none => exact .pure 0
  | some name => exact .intern (.className name)

/-- Interfaces need their names, and not too many of them. -/
theorem needs_interfaceBytes (names : List String) :
    Needs (interfaceBytes names) (names.map .className) (names.length < 65536) := by
  have hindices : Needs (names.mapM ConstantPool.internClass)
      (names.flatMap fun name => [.className name]) (∀ name ∈ names, True) :=
    Needs.mapM fun name _ => Needs.intern (.className name)
  have h := (Needs.lift (Bytes.exists_count16 names.length)).bind fun count =>
    hindices.map fun indices => count ++ indices.flatMap Bytes.word16
  simp only [List.nil_append, ← List.map_eq_flatMap, implies_true, and_true] at h
  exact h

/-- **What writing a class needs**: all its symbols, and all its counts and lengths. Both can be
read off the class, without writing anything. -/
theorem needs_bodyBytes (c : ClassFile) : Needs c.bodyBytes c.symbols c.TablesFit := by
  have h := (Needs.intern (.className c.name)).bind fun name =>
    (needs_superIndex c.superName).bind fun superName =>
      (needs_interfaceBytes c.interfaces).bind fun interfaces =>
        (Member.needs_tableBytes c.fields).bind fun fields =>
          (Member.needs_tableBytes c.methods).bind fun methods =>
            (Attribute.needs_tableBytes c.attributes).map fun attributes =>
              Bytes.word16 c.access ++ Bytes.word16 name ++ Bytes.word16 superName ++ interfaces
                ++ fields ++ methods ++ attributes
  -- Both sides in the order and with the brackets that `bind` gives them.
  have hsymbols : c.symbols = [.className c.name] ++ (c.superName.toList.map .className
      ++ (c.interfaces.map .className ++ (c.fields.flatMap Member.symbols
      ++ (c.methods.flatMap Member.symbols ++ c.attributes.flatMap Attribute.symbols)))) := by
    simp [symbols]
  have hfits : c.TablesFit ↔ True ∧ True ∧ c.interfaces.length < 65536
      ∧ Member.TableFits c.fields ∧ Member.TableFits c.methods
      ∧ Attribute.TableFits c.attributes := by
    rw [true_and, true_and]
    constructor
    · intro h
      exact ⟨h.interfaces, h.fields, h.methods, h.attributes⟩
    · rintro ⟨hinterfaces, hfields, hmethods, hattributes⟩
      exact ⟨hinterfaces, hfields, hmethods, hattributes⟩
  rw [hsymbols, hfits]
  exact h

/-- **The classes that can be written**: their counts and lengths fit, and so do their symbols, into
a pool that can be written. The pool is written last, when all symbols are in it. -/
theorem bytes_ok_iff {c : ClassFile} (hpool : Reachable c.pool) :
    (∃ bs, c.bytes = .ok bs)
      ↔ c.TablesFit ∧ ∃ pool, internAll c.symbols c.pool = .ok () pool ∧ pool.Writable := by
  constructor
  · rintro ⟨bs, h⟩
    unfold bytes at h
    cases hbody : c.bodyBytes c.pool with
    | error e pool =>
      rw [hbody] at h
      cases h
    | ok body pool =>
      rw [hbody] at h
      obtain ⟨constants, hconstants, _⟩ := bind_eq_ok.1 h
      -- Tables decide the body together with the room for symbols, and texts decide the pool.
      obtain ⟨hfits, hsymbols⟩ := (c.needs_bodyBytes c.pool pool).1 ⟨body, hbody⟩
      exact ⟨hfits, pool, hsymbols, writable_of_bytes hconstants⟩
  · rintro ⟨hfits, pool, hsymbols, hwritable⟩
    obtain ⟨body, hbody⟩ := (c.needs_bodyBytes c.pool pool).2 ⟨hfits, hsymbols⟩
    have hpool' := (appends_internAll c.symbols).reachable_of_ok hpool hsymbols
    obtain ⟨constants, hconstants⟩ := hwritable.bytes hpool'.consistent
    unfold bytes
    rw [hbody]
    exact ⟨_, bind_eq_ok.2 ⟨constants, hconstants, rfl⟩⟩

/-- **A class with room for its symbols can be written**, if its counts and lengths fit and no text
is too long. -/
theorem exists_bytes {c : ClassFile} (hpool : Reachable c.pool) (hfits : c.TablesFit)
    (hwritable : c.pool.Writable) (htexts : ∀ symbol ∈ c.symbols, WritableText symbol.name)
    (hroom : c.pool.size + c.pool.missing c.symbols ≤ 65535) : ∃ bs, c.bytes = .ok bs := by
  obtain ⟨pool, hsymbols⟩ := exists_internAll hpool.consistent hroom
  exact (bytes_ok_iff hpool).2
    ⟨hfits, pool, hsymbols, (OnlyOverflows.internAll htexts _ hwritable).1 _ _ hsymbols⟩

end ClassFile
end ClassLoom
