import ClassLoom.Classpath
import ClassLoom.Program.Options
import ClassLoom.Weave.Weaver

/-!
# Weaving a directory

The program: weaves all classes of a directory on a classpath and writes them to another one,
under the same path names. Class files that cannot be read are copied as they are. The
directory itself comes first on the classpath.
-/

namespace ClassLoom.Program

/-! ## Outcomes and failures -/

/-- What the program leaves behind besides files. -/
structure Outcome where
  exitCode : UInt8
  stdout : String := ""
  stderr : String := ""
  deriving DecidableEq, Repr

/-- Why a directory was not woven to the end. -/
inductive RunError where
  | unreadableSettings (path : String)
  | badSettings (e : SettingsError)
  | unreadableInput (path : String)
  | badClasspath (e : ClasspathError)
  | unwritableClass (name : String) (e : ClassError)
  | noDirectory (path : String)
  | notWritten (path : String)
  deriving DecidableEq, Repr

/-- A failure of settings in words. -/
def settingsMessage : SettingsError → String
  | .unreadable => "failed to read config file"
  | .unparsable => "failed to parse toml config: not a list of settings"
  | e => "invalid `" ++ e.key?.getD "" ++ "`: " ++ e.message?.getD "not a regular expression"

/-- A failure of the classpath in words. -/
def classpathMessage : ClasspathError → String
  | .unreadable => "failed to index classpath: io error"
  | .badArchive => "failed to index classpath: zip error"

/-- A failure in words. -/
def RunError.message : RunError → String
  | unreadableSettings path => "failed to read config file " ++ path ++ ": not a readable text"
  | badSettings e => settingsMessage e
  | unreadableInput path => "failed to read classes from " ++ path ++ ": io error"
  | badClasspath e => classpathMessage e
  | unwritableClass name e => "failed to serialize " ++ name ++ ": " ++ e.message
  | noDirectory path => "failed to create " ++ path ++ ": io error"
  | notWritten path => "failed to write " ++ path ++ ": io error"

/-- The version of the program. -/
def versionText : String := "retro 0.1.0\n"

/-- How to use the program. -/
def helpText : String :=
  "Retrofit compiled classes onto polyfill types\n\n"
    ++ "Usage: retro [OPTIONS] --output <OUTPUT> <INPUT>\n\n"
    ++ "Arguments:\n"
    ++ "  <INPUT>  Directory of compiled classes to weave\n\n"
    ++ "Options:\n"
    ++ "  -o, --output <OUTPUT>    Directory the woven classes are written to\n"
    ++ "      --classpath <ENTRY>  Class directory or jar to resolve types against\n"
    ++ "      --config <FILE>      TOML file overriding the default naming conventions\n"
    ++ "      --threads <THREADS>  Worker threads (overrides the config file)\n"
    ++ "  -h, --help               Print help\n"
    ++ "  -V, --version            Print version\n"

/-! ## Weaving

The program is written against a record of file operations, so that it can be run on a tree in
memory as well as on a disk. -/

variable {m : Type → Type} [Monad m]

/-- The settings that options ask for. -/
def loadSettings (files : FileAccess m) (options : Options) : ExceptT RunError m Settings := do
  let settings ←
    match options.config with
    | none => pure ({} : Settings)
    | some path =>
      match Settings.load ((← files.readFile path).map ByteArray.toList) with
      | .ok settings => pure settings
      | .error .unreadable => throw (.unreadableSettings path)
      | .error e => throw (.badSettings e)
  return { settings with threads := options.threads <|> settings.threads }

/-- Writes a file under the output directory, with the directories that it needs. -/
def writeOutput (files : FileAccess m) (output path : String) (content : ByteArray) :
    ExceptT RunError m Unit := do
  let path := PathName.join output path
  if !(← files.makeDirectories (PathName.parent path)) then
    throw (.noDirectory (PathName.parent path))
  if !(← files.writeFile path content) then throw (.notWritten path)

/-- The class files that can be read with their path names, and those that cannot. -/
def splitInputs (inputs : List ClassBytes) : List (String × ClassFile) × List ClassBytes :=
  let parsed := inputs.map fun c => (c, ClassFile.parse c.content.toList)
  (parsed.filterMap fun (c, r) => r.toOption.map fun parsed => (c.path, parsed),
    parsed.filterMap fun (c, r) => if r.toOption.isSome then none else some c)

/-- Writes a woven class. -/
def writeClass (files : FileAccess m) (output : String) (entry : String × ClassFile) :
    ExceptT RunError m Unit := do
  let (path, c) := entry
  match c.bytes with
  | .ok bytes => writeOutput files output path (ByteArray.mk bytes.toArray)
  | .error e => throw (.unwritableClass c.name e)

/-- Weaves a directory. Gives a summary in words. -/
def weaveDirectory (files : FileAccess m) (options : Options) : ExceptT RunError m String := do
  let settings ← loadSettings files options
  let conventions ←
    match settings.conventions with
    | .ok conventions => pure conventions
    | .error e => throw (.badSettings e)
  let some inputs ← (ClassBytes.readAll files options.input).run
    | throw (.unreadableInput options.input)
  -- The classes to weave come before those of the classpath.
  let entries := .directory options.input :: options.classpath.map ClasspathEntry.ofPath
  let classpath ← (ClassIndex.ofClasspath files entries).adapt RunError.badClasspath
  let (classes, copied) := splitInputs inputs
  let woven := Weave.weave conventions classpath (classes.map (·.2))
  for entry in (classes.map (·.1)).zip woven.classes do
    writeClass files options.output entry
  for c in copied do
    writeOutput files options.output c.path c.content
  return "wove " ++ toString woven.classes.length ++ " classes into " ++ options.output ++ " ("
    ++ toString copied.length ++ " copied unchanged, " ++ toString woven.diagnostics.length
    ++ " diagnostics)\n"

/-- Runs the program. -/
def run (files : FileAccess m) (arguments : List String) : m Outcome := do
  match Request.ofArguments arguments with
  | .error e => return { exitCode := 2, stderr := e.message ++ "\n" }
  | .ok .version => return { exitCode := 0, stdout := versionText }
  | .ok .help => return { exitCode := 0, stdout := helpText }
  | .ok (.run options) =>
    match ← (weaveDirectory files options).run with
    | .ok summary => return { exitCode := 0, stdout := summary }
    | .error e => return { exitCode := 2, stderr := e.message ++ "\n" }

end ClassLoom.Program
