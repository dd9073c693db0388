import ClassLoom.Program.Run

/-!
# The command line

Runs the program on the files of the machine that it runs on.
-/

namespace ClassLoom.CommandLine

/-- The result of an action, or nothing if it fails. -/
def attempt {α : Type} (action : IO α) : IO (Option α) := do
  match ← action.toBaseIO with
  | .ok a => return some a
  | .error _ => return none

/-- The path names of all files under an entry, relative to it. The entry itself has the name
`inner`. Links are not followed. -/
partial def filesUnder (entry : IO.FS.DirEntry) (inner : String) : IO (List String) := do
  let some info ← attempt entry.path.symlinkMetadata | return []
  match info.type with
  | .file => return [inner]
  | .dir =>
    let some entries ← attempt entry.path.readDir | return []
    let found ← entries.toList.mapM fun e => filesUnder e (PathName.join inner e.fileName)
    return found.flatten
  | _ => return []

/-- Access to real files. -/
def files : FileAccess IO where
  readFile path := attempt (IO.FS.readBinFile path)
  listFiles path := filesUnder { root := ".", fileName := path } ""
  makeDirectories path :=
    if path = "" then return true
    else return (← attempt (IO.FS.createDirAll path)).isSome
  writeFile path content := return (← attempt (IO.FS.writeBinFile path content)).isSome

end ClassLoom.CommandLine

/-- Runs the program with the given arguments. -/
def main (arguments : List String) : IO UInt32 := do
  let outcome ← ClassLoom.Program.run ClassLoom.CommandLine.files arguments
  IO.print outcome.stdout
  IO.eprint outcome.stderr
  return outcome.exitCode.toUInt32
