import ClassLoom.Descriptor.Parser
import ClassLoom.Proofs.Code.RoundTrip
import ClassLoom.Proofs.CodePatch.Ranges
import Mathlib.Algebra.GroupWithZero.Nat

/-!
# Tables of variables

The entries of a table are read by looking up their names and types, so a table that can be read
means the same in every pool that has grown. The slots that variables take together are the sum of
their widths, whatever slots they are in.

* `LocalVariable.parseTable_grown`: tables stay readable;
* `LocalVariable.tablesOf`: all tables of a body;
* `LocalVariable.widthOf_take_succ`, `widthOf_take_mono`: running totals.
-/

namespace ClassLoom

open ConstantPool

/-! ## Reading

A table of variables has indices for names and types, so it is read through the pool. A method can
have several such tables. -/

namespace LocalVariable

/-- A variable is read from an entry by looking up its name and its type. The other three words are
taken as they are. -/
theorem read_eq_ok {pool : ConstantPool} {bs rest : Bytes} {v : LocalVariable} :
    read pool bs = .ok (v, rest) ↔ ∃ e : LocalRange, bs = e.bytes ++ rest
      ∧ pool.getUtf8 e.name = .ok v.name ∧ pool.getUtf8 e.descriptor = .ok v.descriptor
      ∧ e.start = v.start ∧ e.length = v.length ∧ e.slot = v.slot := by
  constructor
  · intro h
    obtain ⟨start, _, hstart, h⟩ := Reader.bind_eq_ok.1 h
    obtain ⟨length, _, hlength, h⟩ := Reader.bind_eq_ok.1 h
    obtain ⟨name, _, hname, h⟩ := Reader.bind_eq_ok.1 h
    obtain ⟨nameText, _, hnameLift, h⟩ := Reader.bind_eq_ok.1 h
    obtain ⟨descriptor, _, hdescriptor, h⟩ := Reader.bind_eq_ok.1 h
    obtain ⟨descriptorText, _, hdescriptorLift, h⟩ := Reader.bind_eq_ok.1 h
    obtain ⟨slot, _, hslot, hend⟩ := Reader.bind_eq_ok.1 h
    obtain ⟨hnameText, rfl⟩ := Reader.lift_eq_ok.1 hnameLift
    obtain ⟨hdescriptorText, rfl⟩ := Reader.lift_eq_ok.1 hdescriptorLift
    cases hend
    rw [Reader.word16_eq_ok] at hstart hlength hname hdescriptor hslot
    refine ⟨⟨start, length, name, descriptor, slot⟩, ?_, hnameText, hdescriptorText, rfl, rfl, rfl⟩
    rw [hstart, hlength, hname, hdescriptor, hslot]
    simp only [LocalRange.bytes, LocalRange.keptBytes, List.append_assoc]
  · rintro ⟨e, rfl, hname, hdescriptor, hstart, hlength, hslot⟩
    cases v
    cases hstart
    cases hlength
    cases hslot
    simp only [LocalRange.bytes, LocalRange.keptBytes, List.append_assoc]
    exact read_run hname hdescriptor rest

/-- **Tables of variables stay readable** while the pool grows. -/
theorem parseTable_grown {old new : ConstantPool} (hgrown : Grown old new) {info : Bytes}
    {entries : List LocalVariable} (h : parseTable old info = .ok entries) :
    parseTable new info = .ok entries := by
  obtain ⟨n, mid, hn, hentries⟩ := Reader.bind_eq_ok.1 (Reader.all_eq_ok.1 h)
  refine Reader.all_eq_ok.2 (Reader.bind_eq_ok.2 ⟨n, mid, hn, Reader.times_imp ?_ hentries⟩)
  intro bs v rest hread
  obtain ⟨e, hbytes, hname, hdescriptor, hkept⟩ := read_eq_ok.1 hread
  exact read_eq_ok.2 ⟨e, hbytes, hgrown.getUtf8 hname, hgrown.getUtf8 hdescriptor, hkept⟩

/-- The tables of variables among attributes. -/
def tablesOf (pool : ConstantPool) (attributes : List Attribute) :
    Except ClassError (List (List LocalVariable)) :=
  (attributes.filter (·.name = tableName)).mapM fun a => parseTable pool a.info

section TablesOf

variable {pool : ConstantPool} {a : Attribute} {rest : List Attribute}

theorem tablesOf_cons_of_ne (h : a.name ≠ tableName) :
    tablesOf pool (a :: rest) = tablesOf pool rest := by
  unfold tablesOf
  rw [List.filter_cons_of_neg (by simpa using h)]

/-- A table in front is read before the others, and all of them must be readable. -/
theorem tablesOf_cons_eq_ok (h : a.name = tableName) {tables : List (List LocalVariable)} :
    tablesOf pool (a :: rest) = .ok tables ↔ ∃ entries more,
      parseTable pool a.info = .ok entries ∧ tablesOf pool rest = .ok more
        ∧ tables = entries :: more := by
  unfold tablesOf
  rw [List.filter_cons_of_pos (by simpa using h), mapM_eq_ok, List.forall₂_cons_left_iff]
  simp only [mapM_eq_ok]

end TablesOf

section MemTables

variable {pool : ConstantPool} {attributes : List Attribute} {tables : List (List LocalVariable)}
  {entries : List LocalVariable}

/-- Every table that is read is that of an attribute. -/
theorem exists_of_mem_tables (h : tablesOf pool attributes = .ok tables)
    (hentries : entries ∈ tables) :
    ∃ a ∈ attributes, a.name = tableName ∧ parseTable pool a.info = .ok entries := by
  obtain ⟨a, ha, hparse⟩ := exists_of_mem_right (mapM_eq_ok.1 h) hentries
  obtain ⟨ha, hname⟩ := List.mem_filter.1 ha
  exact ⟨a, ha, of_decide_eq_true hname, hparse⟩

theorem exists_mem_tables (h : tablesOf pool attributes = .ok tables) {a : Attribute}
    (ha : a ∈ attributes) (hname : a.name = tableName) :
    ∃ entries ∈ tables, parseTable pool a.info = .ok entries :=
  exists_of_mem_left (mapM_eq_ok.1 h) (List.mem_filter.2 ⟨ha, decide_eq_true hname⟩)

/-- What it is read as is one of the tables. -/
theorem mem_tables (h : tablesOf pool attributes = .ok tables) {a : Attribute}
    (ha : a ∈ attributes) (hname : a.name = tableName)
    (hparse : parseTable pool a.info = .ok entries) : entries ∈ tables := by
  obtain ⟨found, hmem, hfound⟩ := exists_mem_tables h ha hname
  rw [hparse] at hfound
  cases hfound
  exact hmem

end MemTables

/-! ## Running totals

Slots are renumbered by running totals of widths, in which a variable whose type cannot be read
counts for nothing. That does not happen in tables that are renumbered, but the total is then
defined for all. -/

/-- The slots that a variable takes, by its type; none where it has no type. -/
def width (v : LocalVariable) : Nat :=
  match FieldType.parse v.descriptor with
  | .ok type => type.width
  | .error _ => 0

/-- The slots that variables take together. -/
def widthOf (vs : List LocalVariable) : Nat := (vs.map width).sum

theorem widthOf_cons (v : LocalVariable) (vs : List LocalVariable) :
    widthOf (v :: vs) = v.width + widthOf vs := by
  unfold widthOf
  rw [List.map_cons, List.sum_cons]

theorem widthOf_append (vs ws : List LocalVariable) :
    widthOf (vs ++ ws) = widthOf vs + widthOf ws := by
  unfold widthOf
  rw [List.map_append, List.sum_append]

theorem width_eq {v : LocalVariable} {type : FieldType}
    (h : FieldType.parse v.descriptor = .ok type) : v.width = type.width := by
  unfold width
  rw [h]

theorem widthOf_take_succ {vs : List LocalVariable} {i : Nat} (h : i < vs.length) :
    widthOf (vs.take (i + 1)) = widthOf (vs.take i) + vs[i].width := by
  rw [List.take_succ_eq_append_getElem h, widthOf_append, widthOf_cons]
  rfl

/-- So it never falls. -/
theorem widthOf_take_mono (vs : List LocalVariable) {i j : Nat} (h : i ≤ j) :
    widthOf (vs.take i) ≤ widthOf (vs.take j) := by
  have hsplit := List.take_append_drop i (vs.take j)
  rw [List.take_take, Nat.min_eq_left h] at hsplit
  rw [← hsplit, widthOf_append]
  exact Nat.le_add_right ..

end LocalVariable
end ClassLoom
