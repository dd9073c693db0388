/-!
# Options

What the arguments of the program ask for. Arguments are taken from left to right, and the
first one that is wrong, or asks for the version, decides.
-/

namespace ClassLoom.Program

/-! ## Requests -/

/-- What to weave, and how. -/
structure Options where
  /-- The directory of classes to weave. -/
  input : String
  /-- The directory for woven classes. -/
  output : String
  /-- Directories and archives to look classes up in. -/
  classpath : List String := []
  /-- The settings file. -/
  config : Option String := none
  /-- The threads to weave with, whatever the settings file says. -/
  threads : Option Nat := none
  deriving DecidableEq, Repr

/-- What the arguments ask for. -/
inductive Request where
  | run (options : Options)
  | version
  | help
  deriving DecidableEq, Repr

/-- Why arguments were refused. -/
inductive UsageError where
  | unexpected (argument : String)
  | missingValue (option : String)
  | badValue (option value : String)
  | repeated (option : String)
  | missing (option : String)
  deriving DecidableEq, Repr

/-- A refusal in words. -/
def UsageError.message : UsageError → String
  | unexpected argument => "error: unexpected argument '" ++ argument ++ "' found"
  | missingValue option => "error: a value is required for '" ++ option ++ "'"
  | badValue option value => "error: invalid value '" ++ value ++ "' for '" ++ option ++ "'"
  | repeated option => "error: the argument '" ++ option ++ "' cannot be used multiple times"
  | missing option => "error: the following required argument was not provided: " ++ option

/-! ## Single options

Each option but the classpath can be given once. A value is checked when it is given. -/

/-- What has been asked for so far. -/
structure Draft where
  input : Option String := none
  output : Option String := none
  classpath : List String := []
  config : Option String := none
  threads : Option Nat := none

namespace Draft

/-- A path name, which must not be empty. -/
def pathValue (option value : String) : Except UsageError String :=
  if value = "" then throw (.badValue option value) else return value

/-- A number, with a plus sign or without one. -/
def countValue (option value : String) : Except UsageError Nat :=
  let digits := if value.toList.head? = some '+' then value.toList.drop 1 else value.toList
  let n := digits.foldl (fun n c => n * 10 + (c.toNat - 48)) 0
  if !digits.isEmpty && digits.all Char.isDigit && n < 18446744073709551616 then return n
  else throw (.badValue option value)

/-- Sets an option that takes a value; nothing if there is no such option. -/
def set? (d : Draft) (option value : String) : Option (Except UsageError Draft) :=
  match option with
  | "--output" => some do
    if d.output.isSome then throw (.repeated option)
    return { d with output := some (← pathValue option value) }
  | "--classpath" => some do
    return { d with classpath := d.classpath ++ [← pathValue option value] }
  | "--config" => some do
    if d.config.isSome then throw (.repeated option)
    return { d with config := some (← pathValue option value) }
  | "--threads" => some do
    if d.threads.isSome then throw (.repeated option)
    return { d with threads := some (← countValue option value) }
  | _ => none

/-- Sets an option that takes a value. -/
def set (d : Draft) (option value : String) : Except UsageError Draft :=
  (d.set? option value).getD (throw (.unexpected option))

/-- Takes an argument that is no option. -/
def addInput (d : Draft) (argument : String) : Except UsageError Draft := do
  if d.input.isSome then throw (.unexpected argument)
  return { d with input := some (← pathValue "<INPUT>" argument) }

/-- What has been asked for in the end. -/
def finish (d : Draft) : Except UsageError Request :=
  match d.input, d.output with
  | some input, some output =>
    return .run { input, output, classpath := d.classpath, config := d.config,
                  threads := d.threads }
  | _, none => throw (.missing "--output <OUTPUT>")
  | none, _ => throw (.missing "<INPUT>")

/-- Whether an argument can be the value of the option before it. -/
def isValue (argument : String) : Bool :=
  argument.toList.head? ≠ some '-' || argument = "-"

end Draft

/-! ## Arguments

What an argument is can be told from its text, up to the end of options. -/

/-- What an argument is. -/
inductive Argument where
  /-- No option. -/
  | plain (text : String)
  /-- Ends the options. -/
  | endOfOptions
  | version
  | help
  /-- An option with its value, if the value is part of the argument. -/
  | option (name : String) (value : Option String)
  | unknown (text : String)
  deriving DecidableEq, Repr

namespace Argument

/-- An option with a long name. -/
def ofLong (text : String) : Argument :=
  let name := text.toList.takeWhile (· ≠ '=')
  let value := (text.toList.drop name.length).drop 1
  let hasValue := name.length < text.toList.length
  match String.ofList name with
  | "--version" => if hasValue then unknown text else version
  | "--help" => if hasValue then unknown text else help
  | name => option name (if hasValue then some (String.ofList value) else none)

/-- Options with short names. The value of one can follow its letter. -/
def ofShort (text : String) : List Char → Argument
  | 'V' :: _ => version
  | 'h' :: _ => help
  | 'o' :: [] => option "--output" none
  | 'o' :: '=' :: value => option "--output" (some (String.ofList value))
  | 'o' :: value => option "--output" (some (String.ofList value))
  | _ => unknown text

/-- What an argument in front of the end of options is. -/
def of (text : String) : Argument :=
  match text.toList with
  | ['-'] => plain text
  | ['-', '-'] => endOfOptions
  | '-' :: '-' :: _ => ofLong text
  | '-' :: letters => ofShort text letters
  | _ => plain text

end Argument

/-! ## Scanning

The first argument that decides ends the scan, so arguments behind it are not even looked at. -/

/-- Takes all further arguments as inputs. -/
def scanInputs (d : Draft) : List String → Except UsageError Request
  | [] => d.finish
  | argument :: rest => do scanInputs (← d.addInput argument) rest

/-- Takes arguments from left to right. -/
def scan (d : Draft) : List String → Except UsageError Request
  | [] => d.finish
  | argument :: rest =>
    match Argument.of argument, rest with
    | .plain text, rest => do scan (← d.addInput text) rest
    | .endOfOptions, rest => scanInputs d rest
    | .version, _ => return .version
    | .help, _ => return .help
    | .option name (some value), rest => do scan (← d.set name value) rest
    | .option name none, value :: rest =>
      -- A known option wants its value before anything else is said about the next argument.
      if (d.set? name value).isSome && !Draft.isValue value then throw (.missingValue name)
      else do scan (← d.set name value) rest
    | .option name none, [] =>
      if (d.set? name "").isSome then throw (.missingValue name) else throw (.unexpected name)
    | .unknown text, _ => throw (.unexpected text)

/-- What the arguments of the program ask for. -/
def Request.ofArguments (arguments : List String) : Except UsageError Request :=
  scan {} arguments

end ClassLoom.Program
