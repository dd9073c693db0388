import ClassLoom.Settings
import ClassLoom.Weave.CallRedirection
import ClassLoom.Weave.LambdaCarrier
import ClassLoom.Weave.LocalRetyping

/-!
# Weaving a batch

Sends the classes of a batch to polyfills, in three phases. Every phase goes over all classes
with one snapshot of what can be seen, taken when it starts, so the order in which it takes
the classes does not matter.

1. Prepare: lambda carriers get a new factory and one more interface, local variables are
   retyped, and forwarders of default methods are added.
2. Redirect: calls go to polyfills.
3. Narrow: lambda carriers lose their old interface and factory.

Nothing stops the weaving of a batch; what could not be done is reported.
-/

namespace ClassLoom.Weave

/-- A woven batch. -/
structure Woven where
  /-- The classes, in the order of the batch. -/
  classes : List ClassFile
  /-- What could not be done, phase by phase, in the order of the batch. -/
  diagnostics : List Diagnostic

/-! ## Steps and phases -/

/-- One step of a phase on one class. -/
abbrev Step := Surroundings → ClassFile → ClassFile × List Diagnostic

/-- One step behind another. -/
def Step.andThen (first second : Step) : Step := fun s c =>
  let (c, before) := first s c
  let (c, after) := second s c
  (c, before ++ after)

/-- The step of the first phase. -/
def prepare : Step :=
  (Step.andThen prepareCarrier retypeAllLocals).andThen addForwarders

/-- The step of the last phase. -/
def narrow : Step := fun s c => (narrowCarrier s c, [])

/-- Takes all classes through a step, with what can be seen before it. -/
def phase (step : Step) (conventions : Conventions) (classpath : ClassIndex) (woven : Woven) :
    Woven :=
  let scope := Scope.ofBatch woven.classes classpath
  let results := woven.classes.map (step { scope, conventions })
  { classes := results.map (·.1)
    diagnostics := woven.diagnostics ++ results.flatMap (·.2) }

/-- Weaves a batch of classes on a classpath. -/
def weave (conventions : Conventions) (classpath : ClassIndex) (classes : List ClassFile) :
    Woven :=
  let start : Woven := { classes, diagnostics := [] }
  let prepared := phase prepare conventions classpath start
  let redirected := phase redirectCalls conventions classpath prepared
  phase narrow conventions classpath redirected

end ClassLoom.Weave
