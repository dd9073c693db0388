import ClassLoom.Typing.SlotType

/-!
# Assignability

Which values a slot of a declared type takes. Interfaces take any reference, and a class takes
what has it on its chain of superclasses. A class about which the hierarchy says nothing is
trusted to be assignable, and so is one whose chain is longer than `chainLimit`.

`SlotType.widen` is the least change that makes a slot take one more value.
-/

namespace ClassLoom.Typing

/-! ## Hierarchies -/

/-- What is known about a class or interface. -/
inductive Lineage where
  | interface
  /-- A class and its superclass, if it has one. -/
  | subclass (superName : Option String)
  deriving DecidableEq, Repr

/-- What is known about classes, by internal name. -/
abbrev Hierarchy := String → Option Lineage

/-- The steps after which a chain of superclasses counts as unknown. -/
def chainLimit : Nat := 64

/-! ## Names of arrays

A class constant gives an array by its descriptor. Taking a component off makes the descriptor
shorter, which is why assignability of arrays comes to an end. -/

namespace ArrayName

/-- The descriptor of an array's components; nothing for names of classes. -/
def component? (name : String) : Option String :=
  match name.toList with
  | '[' :: rest => some (String.ofList rest)
  | _ => none

/-- The name of the class or array that components with the given descriptor are of; nothing
for primitive components. -/
def componentClass? (component : String) : Option String :=
  if component.toList.head? = some '[' then some component
  else FieldType.classNameIn? component

/-- Whether a name is an array's descriptor. -/
def isArray (name : String) : Bool := (component? name).isSome

/-- The components of an array have a shorter descriptor than the array. -/
theorem length_component? {name component : String} (h : component? name = some component) :
    component.length < name.length := by
  unfold component? at h
  split at h
  · rename_i rest heq
    obtain rfl := Option.some.inj h
    rw [String.length_ofList, ← String.length_toList, heq]
    simp
  · simp at h

/-- The class that a descriptor names has no longer name than the descriptor. -/
theorem length_componentClass? {component name : String}
    (h : componentClass? component = some name) : name.length ≤ component.length := by
  unfold componentClass? at h
  split at h
  · exact Nat.le_of_eq (congrArg String.length (Option.some.inj h)).symm
  · exact FieldType.length_classNameIn? h

end ArrayName

/-! ## Subclasses

Questions are answered as far as the hierarchy tells. Where it tells nothing, the answer is the one
that accepts more bodies. -/

namespace Hierarchy

/-- Whether `target` is a proper superclass of `name`, as far as so many steps of its chain
tell. A chain that is not known to the end may lead anywhere. -/
def reaches (h : Hierarchy) : Nat → String → String → Bool
  | 0, _, _ => true
  | steps + 1, name, target =>
    if name = objectName then false
    else
      match h name with
      | none => true
      | some .interface => false
      | some (.subclass none) => false
      | some (.subclass (some parent)) => parent = target || reaches h steps parent target

/-- Whether a reference to `name` can stand where one to `target` is asked for. -/
def isSubclass (h : Hierarchy) (name target : String) : Bool :=
  if name = target || target = objectName then true
  else
    match _ht : ArrayName.component? target, ArrayName.component? name with
    | some targetComponent, some component =>
      match _hc : ArrayName.componentClass? targetComponent, ArrayName.componentClass? component with
      | some targetClass, some componentClass => isSubclass h componentClass targetClass
      | _, _ => component = targetComponent
    | some _, none => false
    | none, some _ => target = "java/lang/Cloneable" || target = "java/io/Serializable"
    | none, none => h target = some .interface || h.reaches chainLimit name target
termination_by target.length
decreasing_by
  exact Nat.lt_of_le_of_lt (ArrayName.length_componentClass? _hc) (ArrayName.length_component? _ht)

/-- The first class on the chain from `current` on, within so many steps, that a reference to
`actual` can stand for. -/
def climb (h : Hierarchy) : Nat → String → String → String
  | 0, _, _ => objectName
  | steps + 1, current, actual =>
    if h.isSubclass actual current then current
    else
      match h current with
      | some (.subclass (some parent)) => climb h steps parent actual
      | _ => objectName

/-- The nearest superclass of `declared` that a reference to `actual` can stand for. -/
def commonSuperclass (h : Hierarchy) (declared actual : String) : String :=
  if ArrayName.isArray declared || ArrayName.isArray actual then objectName
  else h.climb chainLimit declared actual

end Hierarchy

/-! ## Widening -/

namespace SlotType

/-- Whether a value of type `value` can be in a slot of type `slot`. -/
def isAssignable (h : Hierarchy) (value slot : SlotType) : Bool :=
  match value, slot with
  | _, top => true
  | null, reference _ => true
  | reference name, reference target => h.isSubclass name target
  | value, slot => value = slot

/-- The type of a slot that takes a value of type `value` besides what it takes already. -/
def widen (h : Hierarchy) (slot value : SlotType) : SlotType :=
  if isAssignable h value slot then slot
  else
    match slot, value with
    | reference declared, reference actual => reference (h.commonSuperclass declared actual)
    | null, reference name => reference name
    | _, _ => top

end SlotType
end ClassLoom.Typing
