import ClassLoom.Conventions
import ClassLoom.Pattern.Parser
import ClassLoom.Settings.Toml
import ClassLoom.Text.Blank

/-!
# Settings

What a user can set, and the conventions that the settings amount to. Class names are written
with dots here.
-/

namespace ClassLoom

/-! ## What can be set -/

/-- Why settings were refused. -/
inductive SettingsError where
  /-- There is no such file, or it is no text. -/
  | unreadable
  /-- The text is no settings file, or sets what cannot be set. -/
  | unparsable
  /-- A name that must not be blank is. -/
  | blank (key : String)
  /-- No threads to work with. -/
  | noThreads
  /-- The pattern for lambda carriers is no pattern. -/
  | badPattern
  deriving DecidableEq, Repr

/-- What a user can set. -/
structure Settings where
  polyfillNamespace : String := "io.github.retropiler.runtime"
  mixinMarker : String := "io.github.retropiler.annotation.RetroMixin"
  companionSuffix : String := "$"
  lambdaClassPattern : String := ".+\\$\\$Lambda\\$\\d+"
  lambdaFactory : String := "lambdaFactory$"
  replacementPrefix : String := "_"
  lambdaInstanceField : String := "instance"
  localVariableType : String := "java.util.Optional"
  /-- Threads to weave with; as many as there are processors if unset. -/
  threads : Option Nat := none
  deriving DecidableEq, Repr

namespace SettingsError

/-- The setting that is to blame. -/
def key? : SettingsError → Option String
  | unreadable => none
  | unparsable => none
  | blank key => some key
  | noThreads => some "threads"
  | badPattern => some "lambda_class_pattern"

/-- What is wrong with the setting, where that is all there is to say. -/
def message? : SettingsError → Option String
  | blank _ => some "must not be empty"
  | noThreads => some "must be at least 1"
  | _ => none

end SettingsError

namespace Settings

/-! ## Settings files -/

/-- The settings with one more of them set. Nothing if there is no such setting, or it cannot
have such a value. -/
def set? (s : Settings) (key : String) (value : Toml.Value) : Option Settings :=
  match key, value with
  | "polyfill_namespace", .text t => some { s with polyfillNamespace := t }
  | "mixin_marker", .text t => some { s with mixinMarker := t }
  | "companion_suffix", .text t => some { s with companionSuffix := t }
  | "lambda_class_pattern", .text t => some { s with lambdaClassPattern := t }
  | "lambda_factory", .text t => some { s with lambdaFactory := t }
  | "replacement_prefix", .text t => some { s with replacementPrefix := t }
  | "lambda_instance_field", .text t => some { s with lambdaInstanceField := t }
  | "local_variable_type", .text t => some { s with localVariableType := t }
  | "threads", .integer (.ofNat n) => some { s with threads := some n }
  | _, _ => none

/-- The settings in a settings file. -/
def parse (file : String) : Except SettingsError Settings :=
  match (Toml.parse? file).bind fun entries =>
      entries.foldlM (fun s (key, value) => s.set? key value) ({} : Settings) with
  | some s => .ok s
  | none => .error .unparsable

/-- The settings in the content of a settings file, if there is one. -/
def load (content : Option Bytes) : Except SettingsError Settings :=
  match content.bind fun bytes => String.fromUTF8? (ByteArray.mk bytes.toArray) with
  | some file => parse file
  | none => .error .unreadable

/-! ## Checked settings

Names are checked in a fixed order, and the first one that is blank is reported. The pattern is
compiled last, between marks for both ends of a name. -/

/-- The names that must not be blank, in the order in which they are checked. -/
def required (s : Settings) : List (String × String) :=
  [("polyfill_namespace", s.polyfillNamespace), ("mixin_marker", s.mixinMarker),
    ("lambda_factory", s.lambdaFactory), ("replacement_prefix", s.replacementPrefix),
    ("lambda_instance_field", s.lambdaInstanceField),
    ("local_variable_type", s.localVariableType)]

/-- A name with dots as an internal name. -/
def internalName (name : String) : String :=
  String.ofList ((Text.trimChars name.toList).map fun c => if c = '.' then '/' else c)

/-- The conventions that the settings amount to. -/
def conventions (s : Settings) : Except SettingsError Conventions := do
  if let some (key, _) := s.required.find? fun (_, name) => (Text.trimChars name.toList).isEmpty then
    throw (.blank key)
  if s.threads = some 0 then throw .noThreads
  let some lambdaClass := Pattern.parse? ("^(?:" ++ s.lambdaClassPattern ++ ")$")
    | throw .badPattern
  return {
    polyfillNamespace := internalName s.polyfillNamespace
    mixinMarker := internalName s.mixinMarker
    companionSuffix := s.companionSuffix
    lambdaClass
    lambdaFactory := s.lambdaFactory
    replacementFactory := s.replacementPrefix ++ s.lambdaFactory
    replacementPrefix := s.replacementPrefix
    lambdaInstanceField := s.lambdaInstanceField
    localVariableType := internalName s.localVariableType }

end Settings
end ClassLoom
