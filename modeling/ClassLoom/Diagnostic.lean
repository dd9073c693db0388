/-!
# Diagnostics

What the weaver reports about members that it leaves as they were. Diagnostics are advice:
none of them stops the weaving.
-/

namespace ClassLoom

/-! ## Places and findings -/

/-- What a diagnostic is about. -/
structure Location where
  /-- The internal name of the class. -/
  className : String
  /-- The name of the method, with its descriptor. -/
  method : Option String := none
  /-- The offset of the instruction in the body as it was. -/
  pc : Option Nat := none
  line : Option UInt16 := none
  deriving DecidableEq, Repr

/-- What was found. -/
inductive Finding where
  /-- A mixin lacks the static method that a call would need. -/
  | unresolvedMixinMethod (polyfill name descriptor : String)
  /-- A member could not be read or written. -/
  | malformedMember (message : String)
  deriving DecidableEq, Repr

/-- A finding and its place. -/
structure Diagnostic where
  location : Location
  finding : Finding
  deriving DecidableEq, Repr

namespace Location

/-- The place of a method. -/
def ofMethod (className name descriptor : String) : Location :=
  { className, method := some (name ++ descriptor) }

/-- The place of an instruction in a method. -/
def atInstruction (l : Location) (pc : Nat) (line : Option UInt16) : Location :=
  { l with pc := some pc, line }

/-- A place in words, in the manner of a stack trace. -/
def text (l : Location) : String :=
  String.ofList (l.className.toList.map fun c => if c = '/' then '.' else c)
    ++ (l.method.map ("#" ++ ·)).getD ""
    ++ (l.pc.map ("@" ++ toString ·)).getD ""
    ++ (l.line.map fun n => " (line " ++ toString n.toNat ++ ")").getD ""

end Location

/-- A finding in words. -/
def Finding.message : Finding → String
  | unresolvedMixinMethod polyfill name descriptor =>
    "mixin `" ++ polyfill ++ "` has no static `" ++ name ++ descriptor
      ++ "`; call left unchanged"
  | malformedMember message => "malformed member left unchanged: " ++ message

namespace Diagnostic

/-- The finding that a member could not be read or written. -/
def malformed (location : Location) (message : String) : Diagnostic :=
  { location, finding := .malformedMember message }

/-- A diagnostic in words. -/
def text (d : Diagnostic) : String := d.location.text ++ ": " ++ d.finding.message

end Diagnostic
end ClassLoom
