/-!
# Descriptors

The types that field and method descriptors denote, their printed form, and the number of
local variable slots a value of each takes.
-/

namespace ClassLoom

/-! ## Primitive types -/

/-- The primitive types. -/
inductive BaseType where
  | byte
  | char
  | double
  | float
  | int
  | long
  | short
  | boolean
  deriving DecidableEq, Repr

namespace BaseType

/-- The descriptor character of a primitive type. -/
def code : BaseType → Char
  | byte => 'B'
  | char => 'C'
  | double => 'D'
  | float => 'F'
  | int => 'I'
  | long => 'J'
  | short => 'S'
  | boolean => 'Z'

/-- The primitive type with the given descriptor character. -/
def ofCode? (c : Char) : Option BaseType :=
  if c = 'B' then some byte
  else if c = 'C' then some char
  else if c = 'D' then some double
  else if c = 'F' then some float
  else if c = 'I' then some int
  else if c = 'J' then some long
  else if c = 'S' then some short
  else if c = 'Z' then some boolean
  else none

/-- A primitive type is known by its descriptor character, which no two of them share. -/
theorem ofCode?_code (b : BaseType) : ofCode? b.code = some b := by
  cases b <;> rfl

end BaseType

/-! ## Field types

The printed form of a type is its descriptor. Nothing here asks whether a name is a good one; a name
with a semicolon in it prints as a text that is read as something else. -/

/-- A type that a field, a local variable or a parameter can have. -/
inductive FieldType where
  | base (type : BaseType)
  /-- A class or interface, by internal name. -/
  | object (name : String)
  | array (component : FieldType)
  deriving DecidableEq, Repr

namespace FieldType

/-- The printed form, as characters. -/
def chars : FieldType → List Char
  | base type => [type.code]
  | object name => 'L' :: (name.toList ++ [';'])
  | array component => '[' :: component.chars

/-- The printed form. -/
def text (t : FieldType) : String := String.ofList t.chars

/-- The number of local variable (and operand stack) slots a value takes. -/
def width : FieldType → Nat
  | base .long => 2
  | base .double => 2
  | _ => 1

/-- The slots that values of the given types take together. This is the sum itself: it has no bound,
and is the same as a sum in the 16 bits of a slot number only up to 65535. -/
def widthOfAll (types : List FieldType) : Nat :=
  types.foldr (fun type slots => type.width + slots) 0

/-- Whether values of the type are references. -/
def isReference : FieldType → Bool
  | base _ => false
  | _ => true

/-- The name a class constant gives to the type: the internal name of a class, the descriptor
of an array, nothing for a primitive. -/
def classEntryName? : FieldType → Option String
  | base _ => none
  | object name => some name
  | t@(array _) => some t.text

end FieldType

/-! ## Method descriptors -/

/-- What a method returns. -/
inductive ReturnType where
  | void
  | value (type : FieldType)
  deriving DecidableEq, Repr

namespace ReturnType

/-- The printed form, as characters. -/
def chars : ReturnType → List Char
  | void => ['V']
  | value type => type.chars

/-- The printed form. -/
def text (t : ReturnType) : String := String.ofList t.chars

/-- The number of operand stack slots the result takes. -/
def width : ReturnType → Nat
  | void => 0
  | value type => type.width

end ReturnType

/-- The parameter types and the result of a method. -/
structure MethodDescriptor where
  /-- The declared parameters; the receiver is not among them. -/
  params : List FieldType
  result : ReturnType
  deriving DecidableEq, Repr

namespace MethodDescriptor

/-- The printed form, as characters. -/
def chars (d : MethodDescriptor) : List Char :=
  '(' :: (d.params.flatMap FieldType.chars ++ ')' :: d.result.chars)

/-- The printed form. -/
def text (d : MethodDescriptor) : String := String.ofList d.chars

/-- The slots of all declared parameters together, without a bound like `FieldType.widthOfAll`. A
descriptor can name more than the 65535 slots that 16 bits can count. -/
def paramSlots (d : MethodDescriptor) : Nat := FieldType.widthOfAll d.params

end MethodDescriptor

/-- The internal name between the marks of a class's descriptor; nothing for other descriptors.
What stands between the marks is taken as it is. -/
def FieldType.classNameIn? (descriptor : String) : Option String :=
  match descriptor.toList with
  | 'L' :: rest =>
    if rest.getLast? = some ';' then some (String.ofList rest.dropLast) else none
  | _ => none

/-- A name is no longer than the descriptor that it stands in. -/
theorem FieldType.length_classNameIn? {descriptor name : String}
    (h : classNameIn? descriptor = some name) : name.length ≤ descriptor.length := by
  unfold classNameIn? at h
  split at h
  · rename_i rest heq
    split at h
    · obtain rfl := Option.some.inj h
      rw [String.length_ofList, ← String.length_toList, heq]
      simp only [List.length_dropLast, List.length_cons]
      omega
    · simp at h
  · simp at h

/-- The printed forms of `types` in a row. -/
def FieldType.textOfAll (types : List FieldType) : String :=
  String.ofList (types.flatMap FieldType.chars)

end ClassLoom
