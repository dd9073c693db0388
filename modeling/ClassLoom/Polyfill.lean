import ClassLoom.Conventions
import ClassLoom.Scope

/-!
# Polyfills

The class that stands in for another one, found by its name. Substitution puts polyfills in
the place of the classes named in a descriptor, each on its own; primitive types, the number
of parameters and their order stay.
-/

namespace ClassLoom

/-! ## Polyfills and their kinds -/

/-- How a polyfill stands in for a class. -/
inductive PolyfillKind where
  /-- Everywhere. -/
  | replacement
  /-- By static methods that take the receiver as their first argument. -/
  | mixin
  deriving DecidableEq, Repr

/-- A class that stands in for another one. -/
structure Polyfill where
  /-- The class that it stands in for. -/
  standsFor : String
  name : String
  kind : PolyfillKind
  isInterface : Bool
  deriving DecidableEq, Repr

/-- What weaving a class refers to. -/
structure Surroundings where
  scope : Scope
  conventions : Conventions

namespace Surroundings

/-- The polyfill of a class. Arrays, polyfills themselves and classes whose polyfill cannot be
seen have none. -/
def polyfill? (s : Surroundings) (name : String) : Option Polyfill :=
  if name = "" || Typing.ArrayName.isArray name || s.conventions.isPolyfill name then none
  else
    let polyfill := s.conventions.polyfillName name
    (s.scope.lookup polyfill).map fun stub =>
      { standsFor := name
        name := polyfill
        kind := if stub.hasAnnotation s.conventions.mixinMarker then .mixin else .replacement
        isInterface := stub.isInterface }

/-! ## Substitution -/

/-- A type with the class in it substituted. -/
def substitute (s : Surroundings) : FieldType → FieldType
  | .base type => .base type
  | .object name =>
    match s.polyfill? name with
    | some polyfill => .object polyfill.name
    | none => .object name
  | .array component => .array (s.substitute component)

/-- A result type with the class in it substituted. -/
def substituteResult (s : Surroundings) : ReturnType → ReturnType
  | .void => .void
  | .value type => .value (s.substitute type)

/-- A method descriptor with all classes in it substituted. -/
def substituteAll (s : Surroundings) (d : MethodDescriptor) : MethodDescriptor :=
  { params := d.params.map s.substitute, result := s.substituteResult d.result }

end Surroundings
end ClassLoom
