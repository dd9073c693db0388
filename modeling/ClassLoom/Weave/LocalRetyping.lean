import ClassLoom.Code.LocalVariable
import ClassLoom.Diagnostic
import ClassLoom.Polyfill

/-!
# Retyping local variables

Debugging tables name the types of local variables, and no descriptor says so. Variables of
one wrapper type get the type of its polyfill. In a body where this happens all slots are
numbered anew, as running totals of the widths before them, and the tables of generic
signatures follow.
-/

namespace ClassLoom.Weave

/-! ## Renumbering

Slots are given out by the order of entries in a table, without regard to ranges. Each table starts
from slot zero. -/

/-- The slots that variables got, by old slot and range, latest first. -/
structure Renumbering where
  slots : List ((UInt16 × UInt16 × UInt16) × UInt16) := []
  /-- The most slots that a table takes. -/
  total : Nat := 0

/-- The old slot and the range of a variable. -/
def rangeKey (v : LocalVariable) : UInt16 × UInt16 × UInt16 := (v.slot, v.start, v.length)

/-- A variable with the type `legacy` replaced. -/
def retypeVariable (legacy polyfill : String) (v : LocalVariable) : LocalVariable :=
  if v.descriptor = legacy then { v with descriptor := polyfill } else v

/-- Variables with new slots from `next` on, and the slot behind them. -/
def renumber (next : Nat) : List LocalVariable → Except ClassError (List LocalVariable × Nat)
  | [] => return ([], next)
  | v :: rest => do
    let width := (← FieldType.parse v.descriptor).width
    if next > 65535 then throw .localSlotOverflow
    let (renumbered, total) ← renumber (next + width) rest
    return ({ v with slot := UInt16.ofNat next } :: renumbered, total)

/-- Takes up the slots that the variables of a table got. -/
def Renumbering.add (r : Renumbering) (old new : List LocalVariable) (total : Nat) :
    Renumbering :=
  let slots := (old.zip new).map fun (v, w) => (rangeKey v, w.slot)
  { slots := slots.reverse ++ r.slots, total := max r.total total }

/-! ## Tables of a body

Tables of variables come first. What they did to slots is kept by old slot and range, which is how
an entry of a table of generic signatures finds the variable that it belongs to. -/

/-- The attributes of a body with all tables of variables retyped and renumbered. -/
def retypeTables (legacy polyfill : String) (r : Renumbering) :
    List (Attribute × Option (List LocalVariable)) → Interning (List Attribute × Renumbering)
  | [] => return ([], r)
  | (a, none) :: rest => do
    let (rest, r) ← retypeTables legacy polyfill r rest
    return (a :: rest, r)
  | (a, some entries) :: rest => do
    let (renumbered, total) ← renumber 0 (entries.map (retypeVariable legacy polyfill))
    let info ← LocalVariable.tableBytes renumbered
    let (rest, r) ← retypeTables legacy polyfill (r.add entries renumbered total) rest
    return ({ a with info } :: rest, r)

/-- A table of generic signatures whose entries follow those that got new slots. -/
def followSlots (r : Renumbering) (a : Attribute) : Interning Attribute := do
  if a.name ≠ LocalVariable.typeTableName then return a
  let pool ← get
  let entries ← LocalVariable.parseTable pool a.info
  let moved := entries.map fun v => { v with slot := (r.slots.lookup (rangeKey v)).getD v.slot }
  return { a with info := ← LocalVariable.tableBytes moved }

/-- The variables in an attribute, if it is a table of them. -/
def variablesOf (pool : ConstantPool) (a : Attribute) :
    Except ClassError (Attribute × Option (List LocalVariable)) := do
  if a.name = LocalVariable.tableName then
    return (a, some (← LocalVariable.parseTable pool a.info))
  else return (a, none)

/-! ## Methods and classes -/

/-- A method with variables of the type `legacy` retyped, or nothing if it has none. -/
def retypeLocals (legacy polyfill : String) (m : Member) : Interning (Option Member) := do
  let pool ← get
  match ← m.code? pool with
  | none => return none
  | some code =>
    let tables ← (code.attributes.mapM (variablesOf pool) : Except ClassError _)
    let hasLegacy := tables.any fun (_, entries) =>
      (entries.getD []).any (·.descriptor = legacy)
    -- Slots are numbered anew only where a type changes.
    if !hasLegacy then return none
    let (attributes, r) ← retypeTables legacy polyfill {} tables
    let attributes ← attributes.mapM (followSlots r)
    if r.total > 65535 then throw .localSlotOverflow
    let maxLocals := max code.maxLocals (UInt16.ofNat r.total)
    return some (← m.setCode { code with attributes, maxLocals })

/-- Retypes the next method of a class, behind the methods `done`, last one first. -/
def retypeNext (className legacy polyfill : String)
    (state : List Member × ConstantPool × List Diagnostic) (m : Member) :
    List Member × ConstantPool × List Diagnostic :=
  let (done, pool, diagnostics) := state
  -- A method without such variables keeps the pool as it is.
  match (retypeLocals legacy polyfill m).on pool with
  | .ok (some retyped, pool) => (retyped :: done, pool, diagnostics)
  | .ok (none, _) => (m :: done, pool, diagnostics)
  | .error e =>
    let location := Location.ofMethod className m.name m.descriptor
    (m :: done, pool, diagnostics ++ [.malformed location e.message])

/-- The descriptor of a class. -/
def descriptorOf (name : String) : String := "L" ++ name ++ ";"

/-- Retypes the local variables of a class. -/
def retypeAllLocals (s : Surroundings) (c : ClassFile) : ClassFile × List Diagnostic :=
  let legacy := s.conventions.localVariableType
  match s.polyfill? legacy with
  | none => (c, [])
  | some polyfill =>
    let (done, pool, diagnostics) := c.methods.foldl
      (retypeNext c.name (descriptorOf legacy) (descriptorOf polyfill.name)) ([], c.pool, [])
    ({ c with methods := done.reverse, pool }, diagnostics)

end ClassLoom.Weave
