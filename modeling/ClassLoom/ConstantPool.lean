import ClassLoom.Constant
import ClassLoom.Error
import Std.Data.TreeMap

/-!
# The constant pool

An append-only table of constants. Slots never move, so attribute payloads that hold pool
indices stay valid when new symbols are interned. An index over the slots finds the first
slot of a constant, which is the one `intern` gives.

Interning is a state transformer that keeps the pool on failure: a symbol that does not fit
leaves behind the parts of it that did.
-/

namespace ClassLoom

/-! ## Pools and interning

The index is not looked at to resolve symbols. It only makes sure that a constant which is there is
found and not put a second time. -/

/-- The slots of a constant pool, and where each constant was first put. -/
structure ConstantPool where
  slots : Array Constant := #[.unusable]
  index : Std.TreeMap Constant UInt16 := ∅

/-- Computes with a pool that may grow; on failure the pool keeps what was added. -/
abbrev Interning := EStateM ClassError ConstantPool

/-- A failure that comes from no interning leaves the pool as it is. -/
instance : MonadLift (Except ClassError) Interning where
  monadLift result pool :=
    match result with
    | .ok a => .ok a pool
    | .error e => .error e pool

/-- The outcome of an action on a pool, with the pool as it is then. A caller that goes on after
a failure goes on with the pool it had. -/
def Interning.on {α : Type} (action : Interning α) (pool : ConstantPool) :
    Except ClassError (α × ConstantPool) :=
  match action pool with
  | .ok a pool => .ok (a, pool)
  | .error e _ => .error e

/-- What a field or method constant refers to. -/
inductive MemberKind where
  | field
  | method
  | interfaceMethod
  deriving DecidableEq, Repr

/-- A field or method constant with its symbols in the clear. -/
structure MemberRef where
  kind : MemberKind
  owner : String
  name : String
  descriptor : String
  deriving DecidableEq, Repr

namespace ConstantPool

/-- The pool of a class without symbols: only slot 0. -/
def empty : ConstantPool := {}

instance : Inhabited ConstantPool := ⟨empty⟩

/-- The number of slots, slot 0 included. -/
def size (pool : ConstantPool) : Nat := pool.slots.size

/-- Whether the pool has no slot but slot 0. -/
def isEmpty (pool : ConstantPool) : Bool := pool.size ≤ 1

/-! ## Adding constants

Symbols are interned from the inside out: the texts first, and then what refers to them. So all
indices in a constant lie in front of it, unless its pool was read from a file. -/

/-- Appends a constant, and the unusable slot behind it if it is wide. -/
def push (c : Constant) : Interning UInt16 := fun ⟨slots, index⟩ =>
  if slots.size + c.width > 65535 then .error .poolOverflow ⟨slots, index⟩
  else
    -- A constant that is there already keeps its first slot in the index.
    let slot := UInt16.ofNat slots.size
    let slots := slots.push c
    .ok slot ⟨if c.isWide then slots.push .unusable else slots, index.insertIfNew c slot⟩

/-- The slot of a constant; appends it if the pool has none equal to it. -/
def intern (c : Constant) : Interning UInt16 := do
  match (← get).index[c]? with
  | some found => return found
  | none => push c

/-- The slot of a text. -/
def internUtf8 (text : String) : Interning UInt16 := intern (.utf8 text)

/-- The slot of a class constant; `name` is an internal name or an array descriptor. -/
def internClass (name : String) : Interning UInt16 := do
  let text ← internUtf8 name
  intern (.classInfo text)

/-- The slot of a name with a descriptor. -/
def internNameAndType (name descriptor : String) : Interning UInt16 := do
  let nameAt ← internUtf8 name
  let descriptorAt ← internUtf8 descriptor
  intern (.nameAndType nameAt descriptorAt)

/-- The constant for a member of the given kind. -/
def memberConstant : MemberKind → UInt16 → UInt16 → Constant
  | .field => .field
  | .method => .method
  | .interfaceMethod => .interfaceMethod

/-- The slot of a field or method reference. -/
def internMember (ref : MemberRef) : Interning UInt16 := do
  let owner ← internClass ref.owner
  let member ← internNameAndType ref.name ref.descriptor
  intern (memberConstant ref.kind owner member)

/-- The slot of a field reference. -/
def internField (owner name descriptor : String) : Interning UInt16 :=
  internMember { kind := .field, owner, name, descriptor }

/-- The slot of a reference to a method of a class, or of an interface. -/
def internMethod (owner name descriptor : String) (ofInterface : Bool) : Interning UInt16 :=
  internMember
    { kind := if ofInterface then .interfaceMethod else .method, owner, name, descriptor }

/-! ## Resolving symbols

What an index refers to must be there and be of the right kind; the failure names the index and both
kinds. -/

/-- The constant at an index; slot 0 and second halves hold none. -/
def get (pool : ConstantPool) (i : UInt16) : Except ClassError Constant :=
  match pool.slots[i.toNat]? with
  | none | some .unusable => .error (.badPoolIndex i)
  | some c => .ok c

/-- The failure of finding `found` where `expected` is asked for. -/
def mismatch (i : UInt16) (expected : ConstantKind) (found : Constant) : ClassError :=
  .poolKindMismatch i expected found.kind

/-- The text at an index. -/
def getUtf8 (pool : ConstantPool) (i : UInt16) : Except ClassError String := do
  match ← pool.get i with
  | .utf8 text => return text
  | other => throw (mismatch i .utf8 other)

/-- The name of the class constant at an index. -/
def getClassName (pool : ConstantPool) (i : UInt16) : Except ClassError String := do
  match ← pool.get i with
  | .classInfo name => pool.getUtf8 name
  | other => throw (mismatch i .classInfo other)

/-- The name and the descriptor at an index. -/
def getNameAndType (pool : ConstantPool) (i : UInt16) : Except ClassError (String × String) := do
  match ← pool.get i with
  | .nameAndType name descriptor =>
    let name ← pool.getUtf8 name
    let descriptor ← pool.getUtf8 descriptor
    return (name, descriptor)
  | other => throw (mismatch i .nameAndType other)

/-- The field or method reference at an index. The name and the descriptor are looked up
before the owner. -/
def getMember (pool : ConstantPool) (i : UInt16) : Except ClassError MemberRef := do
  let (kind, owner, member) ←
    match ← pool.get i with
    | .field owner member => pure (MemberKind.field, owner, member)
    | .method owner member => pure (MemberKind.method, owner, member)
    | .interfaceMethod owner member => pure (MemberKind.interfaceMethod, owner, member)
    | other => throw (mismatch i .method other)
  let (name, descriptor) ← pool.getNameAndType member
  let owner ← pool.getClassName owner
  return { kind, owner, name, descriptor }

end ConstantPool
end ClassLoom
