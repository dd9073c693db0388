import ClassLoom.Typing.Retype
import ClassLoom.Weave.Emission

/-!
# Redirecting calls

Sends the calls of every method of a class to polyfills. A method that cannot be read or
written stays as it was, and so does the constant pool; for the methods behind it, it is as if
it were not there.
-/

namespace ClassLoom.Weave

/-- A body with the calls at the given sites sent to polyfills. It gets the local variables
that the moves of operands take, and frames that its new calls fit. -/
def redirectCode (s : Surroundings) (className : String) (m : Member) (code : Code)
    (sites : List CallSite) : Interning Code := do
  let base := code.maxLocals
  let (patch, width) ← CallSite.patchFor base sites
  -- A patch keeps the limits of the frame; the slots for operands come on top afterwards.
  let patched ← patch.apply code
  if base.toNat + width.toNat > 65535 then throw .localSlotOverflow
  let patched := { patched with maxLocals := base + width }
  let method : Typing.EnclosingMethod :=
    { owner := className, name := m.name, descriptor := m.descriptor, isStatic := m.isStatic }
  let retyped ← Typing.retype s.scope.hierarchy method patched
  return retyped.getD patched

/-- A method with its calls sent to polyfills, and the calls that cannot be. -/
def redirectMethod (s : Surroundings) (className : String) (m : Member) :
    Interning (Member × List Diagnostic) := do
  let pool ← get
  match ← m.code? pool with
  | none => return (m, [])
  | some code =>
    let location := Location.ofMethod className m.name m.descriptor
    let (sites, diagnostics) ← CallSite.planAll s pool location code
    if sites.isEmpty then return (m, diagnostics)
    let code ← redirectCode s className m code sites
    return (← m.setCode code, diagnostics)

/-- Redirects the calls of the next method of a class, behind the methods `done`, last one
first. -/
def redirectNext (s : Surroundings) (className : String)
    (state : List Member × ConstantPool × List Diagnostic) (m : Member) :
    List Member × ConstantPool × List Diagnostic :=
  let (done, pool, diagnostics) := state
  -- On failure the symbols that were interned for the method are dropped with it.
  match (redirectMethod s className m).on pool with
  | .ok ((m, found), pool) => (m :: done, pool, diagnostics ++ found)
  | .error e =>
    let location := Location.ofMethod className m.name m.descriptor
    (m :: done, pool, diagnostics ++ [.malformed location e.message])

/-- Sends the calls of a class to polyfills. -/
def redirectCalls (s : Surroundings) (c : ClassFile) : ClassFile × List Diagnostic :=
  let (done, pool, diagnostics) := c.methods.foldl (redirectNext s c.name) ([], c.pool, [])
  ({ c with methods := done.reverse, pool }, diagnostics)

end ClassLoom.Weave
