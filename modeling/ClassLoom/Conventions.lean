import ClassLoom.ClassFile
import ClassLoom.Pattern

/-!
# Naming conventions

The names by which the weaver knows polyfills, their companions and lambda carriers. All class
names are internal names.
-/

namespace ClassLoom

/-- How the runtime of polyfills and the classes to weave name things. -/
structure Conventions where
  /-- The package of all polyfills. -/
  polyfillNamespace : String
  /-- The annotation of polyfills whose static methods take the receiver as an argument. -/
  mixinMarker : String
  /-- Ends the name of the class that holds the default methods of an interface. -/
  companionSuffix : String
  /-- Matches the simple names of lambda carriers. -/
  lambdaClass : Pattern
  /-- The method by which a lambda carrier gives out its instances. -/
  lambdaFactory : String
  /-- The method that takes the place of `lambdaFactory`. -/
  replacementFactory : String
  /-- Starts the simple names of polyfills. -/
  replacementPrefix : String
  /-- The static field with the only instance of a lambda carrier without captures. -/
  lambdaInstanceField : String
  /-- The type whose local variables get the type of its polyfill. -/
  localVariableType : String

namespace Conventions

/-- The name that the polyfill of a class has: that of `a/B` is `a/_B` in the namespace, if
the prefix is an underscore. -/
def polyfillName (c : Conventions) (name : String) : String :=
  -- The prefix belongs in front of the simple name, behind the package.
  match InternalName.split? name with
  | some (package, simple) =>
    c.polyfillNamespace ++ "/" ++ package ++ "/" ++ c.replacementPrefix ++ simple
  | none => c.polyfillNamespace ++ "/" ++ c.replacementPrefix ++ name

/-- Whether a name lies in the namespace of polyfills. -/
def isPolyfill (c : Conventions) (name : String) : Bool :=
  (c.polyfillNamespace.toList ++ ['/']).isPrefixOf name.toList

/-- The class that holds the default methods of an interface. -/
def companionName (c : Conventions) (interfaceName : String) : String :=
  interfaceName ++ c.companionSuffix

/-- Whether a class hands out instances of a lambda. -/
def isLambdaCarrier (c : Conventions) (name : String) : Bool :=
  c.lambdaClass.occursIn (InternalName.simple name)

end Conventions
end ClassLoom
