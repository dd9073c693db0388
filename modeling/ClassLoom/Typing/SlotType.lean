import ClassLoom.Descriptor

/-!
# Types of slots

What the type checker knows about a local variable slot or an operand stack slot. A `long` or
a `double` takes two slots: the type itself, followed by `top`. Stack map frames list one type
a value instead; `slotsOf` and `valuesOf` go between the two.
-/

namespace ClassLoom.Typing

/-- The internal name of the class that all others extend. -/
def objectName : String := "java/lang/Object"

/-- The name of every constructor. -/
def constructorName : String := "<init>"

/-- The type of the value in a slot. -/
inductive SlotType where
  /-- Nothing that can be used. -/
  | top
  | int
  | float
  | long
  | double
  | null
  /-- The receiver of a constructor before the call of another one. -/
  | uninitializedThis
  /-- A new object before its constructor call, by the offset of its `new`. -/
  | uninitialized (offset : Nat)
  /-- A reference; `name` is an internal name, or an array's descriptor. -/
  | reference (name : String)
  deriving DecidableEq, Repr

namespace SlotType

/-- Whether a value of the type takes two slots. -/
def isWide : SlotType → Bool
  | long => true
  | double => true
  | _ => false

/-- The type of a value of a declared type. -/
def ofField : FieldType → SlotType
  | .base .float => float
  | .base .long => long
  | .base .double => double
  | .base _ => int
  | .object name => reference name
  | t@(.array _) => reference t.text

/-- The slots that values in a row take. -/
def slotsOf (values : List SlotType) : List SlotType :=
  values.flatMap fun v => if v.isWide then [v, top] else [v]

/-- The values that slots in a row hold. -/
def valuesOf : List SlotType → List SlotType
  | [] => []
  | [s] => [s]
  | s :: t :: rest => if s.isWide then s :: valuesOf rest else s :: valuesOf (t :: rest)

/-- Values without the unused ones at the end. -/
def trimmed (values : List SlotType) : List SlotType :=
  (values.reverse.dropWhile (· = top)).reverse

end SlotType
end ClassLoom.Typing
