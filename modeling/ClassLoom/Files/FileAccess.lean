import ClassLoom.Files.PathName

/-!
# Access to files

What the program needs of a file system, and the class files in a directory read by it. A
program written against `FileAccess` runs on a real file system and on a tree in memory alike.
-/

namespace ClassLoom

/-- What can be done with files. -/
structure FileAccess (m : Type → Type) where
  /-- The content of a file; nothing if it cannot be read. -/
  readFile : String → m (Option ByteArray)
  /-- The path names of all files under a directory, relative to it, in any order. There are
  none if there is no such directory; a file is under itself, with an empty name. -/
  listFiles : String → m (List String)
  /-- Makes a directory with all those above it. Tells whether it exists afterwards. -/
  makeDirectories : String → m Bool
  /-- Gives a file a content. Tells whether it has it afterwards. -/
  writeFile : String → ByteArray → m Bool

/-- A class file in a directory. -/
structure ClassBytes where
  /-- The path name relative to the directory. -/
  path : String
  content : ByteArray

namespace ClassBytes

/-- Whether a path name is that of a class file. -/
def isClassFile (path : String) : Bool := PathName.extension? path = some "class"

/-- The path name of something under a directory, which may be itself. -/
def under (directory relative : String) : String :=
  if relative = "" then directory else PathName.join directory relative

/-- Reads a class file under a directory. -/
def read {m : Type → Type} [Monad m] (files : FileAccess m) (directory relative : String) :
    OptionT m ClassBytes := do
  let content ← OptionT.mk (files.readFile (under directory relative))
  return { path := relative, content }

/-- All class files under a directory, in the order of their path names; nothing if one of them
cannot be read. -/
def readAll {m : Type → Type} [Monad m] (files : FileAccess m) (directory : String) :
    OptionT m (List ClassBytes) := do
  let found ← OptionT.lift (files.listFiles directory)
  let classes := found.filter fun path => isClassFile (under directory path)
  (classes.mergeSort PathName.le).mapM (read files directory)

end ClassBytes
end ClassLoom
