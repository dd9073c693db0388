import ClassLoom.Files.FileAccess

/-!
# File trees in memory

Files and directories by their segments below one directory, which itself is always there.
Path names are followed segment by segment; one that leads out of the directory leads nowhere.
-/

namespace ClassLoom

/-! ## Trees -/

/-- A file with its content, or a directory. -/
inductive FileNode where
  | file (content : ByteArray)
  | directory

/-- Files and directories by their segments. A directory with something in it need not be
listed. -/
structure FileTree where
  nodes : List (List String × FileNode) := []

namespace FileTree

/-- What is at some segments. -/
def node? (tree : FileTree) (path : List String) : Option FileNode :=
  match tree.nodes.lookup path with
  | some node => some node
  | none =>
    if path.isEmpty || tree.nodes.any fun (p, _) => path.isPrefixOf p then some .directory
    else none

/-- Whether there is a directory. -/
def isDirectory (tree : FileTree) (path : List String) : Bool :=
  match tree.node? path with
  | some .directory => true
  | _ => false

/-- Gives some segments a node. -/
def set (tree : FileTree) (path : List String) (node : FileNode) : FileTree :=
  { nodes := (path, node) :: tree.nodes.filter fun (p, _) => p ≠ path }

/-! ## Path names -/

/-- Follows segments from a directory. -/
def followFrom (tree : FileTree) (current : List String) : List String → Option (List String)
  | [] => some current
  | s :: rest =>
    if s = ".." then
      if tree.isDirectory current && !current.isEmpty then
        followFrom tree current.dropLast rest
      else none
    else followFrom tree (current ++ [s]) rest

/-- Where a path name leads. -/
def follow (tree : FileTree) (path : String) : Option (List String) :=
  if path = "" || PathName.isAbsolute path then none
  else tree.followFrom [] (PathName.segments path)

/-- What is at a path name. -/
def find? (tree : FileTree) (path : String) : Option (List String × FileNode) := do
  let segments ← tree.follow path
  match ← tree.node? segments with
  | .file content =>
    if PathName.endsInSlash path then none else return (segments, .file content)
  | .directory => return (segments, .directory)

/-! ## Reading -/

/-- The content of a file. -/
def readFile (tree : FileTree) (path : String) : Option ByteArray :=
  match tree.find? path with
  | some (_, .file content) => some content
  | _ => none

/-- The path names of all files under some segments, relative to them. -/
def filesUnder (tree : FileTree) (path : List String) : List String :=
  tree.nodes.filterMap fun (p, node) =>
    match node, path.isPrefixOf? p with
    | .file _, some rest => some (String.intercalate "/" rest)
    | _, _ => none

/-- The path names of all files under a path name, relative to it. -/
def listFiles (tree : FileTree) (path : String) : List String :=
  match tree.find? path with
  | some (segments, _) => tree.filesUnder segments
  | none => []

/-! ## Writing -/

/-- Makes the directories on the way along segments from a directory. -/
def makeFrom (tree : FileTree) (current : List String) : List String → Option FileTree
  | [] => some tree
  | s :: rest =>
    if s = ".." then
      if current.isEmpty then none else makeFrom tree current.dropLast rest
    else
      let next := current ++ [s]
      match tree.node? next with
      | some (.file _) => none
      | some .directory => makeFrom tree next rest
      | none => makeFrom (tree.set next .directory) next rest

/-- Makes a directory with all those above it. -/
def makeDirectories (tree : FileTree) (path : String) : Option FileTree :=
  if PathName.isAbsolute path then none else tree.makeFrom [] (PathName.segments path)

/-- Gives a file a content. The directory that it is in must exist. -/
def writeFile (tree : FileTree) (path : String) (content : ByteArray) : Option FileTree := do
  let segments ← tree.follow path
  if PathName.endsInSlash path || tree.isDirectory segments then none
  if tree.isDirectory segments.dropLast then return tree.set segments (.file content) else none

/-- Keeps a changed tree, and tells whether there is one. -/
def keep (changed : FileTree → Option FileTree) : StateM FileTree Bool := fun tree =>
  match changed tree with
  | some tree => (true, tree)
  | none => (false, tree)

/-- Access to a tree in memory. -/
def access : FileAccess (StateM FileTree) where
  readFile path := return (← get).readFile path
  listFiles path := return (← get).listFiles path
  makeDirectories path := keep (·.makeDirectories path)
  writeFile path content := keep (·.writeFile path content)

end FileTree
end ClassLoom
