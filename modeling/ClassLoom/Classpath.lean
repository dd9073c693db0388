import ClassLoom.ClassIndex
import ClassLoom.Files.FileAccess
import ClassLoom.Jar

/-!
# Classpaths

Directories and jars in which classes are looked for. Of several classes of one name that of
the first entry counts.
-/

namespace ClassLoom

/-- An entry of a classpath, by its path name. -/
inductive ClasspathEntry where
  | directory (path : String)
  | archive (path : String)
  deriving DecidableEq, Repr

/-- Why a classpath cannot be used. -/
inductive ClasspathError where
  /-- A file cannot be read, or is damaged. -/
  | unreadable
  /-- A file is no archive that is known. -/
  | badArchive
  deriving DecidableEq, Repr

namespace ClasspathEntry

/-- The entry at a path name: an archive by its extension, or else a directory. -/
def ofPath (path : String) : ClasspathEntry :=
  match (PathName.extension? path).map fun e => String.ofList (e.toList.map Char.toLower) with
  | some "jar" => archive path
  | some "zip" => archive path
  | _ => directory path

/-- The classes in a directory. -/
def readDirectory {m : Type → Type} [Monad m] (files : FileAccess m) (path : String) :
    ExceptT ClasspathError m (List ClassStub) := do
  match ← (ClassBytes.readAll files path).run with
  | none => throw .unreadable
  | some classes => return classes.filterMap fun c => ClassStub.ofBytes? c.content.toList

/-- The classes in an archive. -/
def readArchive {m : Type → Type} [Monad m] (files : FileAccess m) (path : String) :
    ExceptT ClasspathError m (List ClassStub) := do
  match ← files.readFile path with
  | none => throw .unreadable
  | some file =>
    match Jar.read file with
    | .ok stubs => return stubs
    | .error .malformed => throw .badArchive
    | .error .damaged => throw .unreadable

/-- The classes in an entry. -/
def read {m : Type → Type} [Monad m] (files : FileAccess m) :
    ClasspathEntry → ExceptT ClasspathError m (List ClassStub)
  | directory path => readDirectory files path
  | archive path => readArchive files path

end ClasspathEntry

/-- The index of all classes on a classpath. -/
def ClassIndex.ofClasspath {m : Type → Type} [Monad m] (files : FileAccess m)
    (entries : List ClasspathEntry) : ExceptT ClasspathError m ClassIndex :=
  entries.foldlM (fun index entry => return index.insertAll (← entry.read files)) .empty

end ClassLoom
