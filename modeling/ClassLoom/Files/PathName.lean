/-!
# Path names

Names of files as segments between slashes. Empty segments and single dots say nothing; two
dots go to the directory above.
-/

namespace ClassLoom.PathName

/-- The segments of a path name that say something. -/
def segments (path : String) : List String :=
  ((path.toList.splitOn '/').map String.ofList).filter fun s => s ≠ "" && s ≠ "."

/-- Whether a path name starts at the root. -/
def isAbsolute (path : String) : Bool := path.toList.head? = some '/'

/-- Whether a path name can only be that of a directory. -/
def endsInSlash (path : String) : Bool := path.toList.getLast? = some '/'

/-- The last segment, if it names a file or directory. -/
def fileName? (path : String) : Option String :=
  match (segments path).getLast? with
  | some ".." => none
  | last => last

/-- What stands behind the last dot of the file's name, unless the dot comes first in it. -/
def extension? (path : String) : Option String := do
  let reversed := (← fileName? path).toList.reverse
  let after := reversed.takeWhile (· ≠ '.')
  match reversed.drop after.length with
  | _ :: _ :: _ => return String.ofList after.reverse
  | _ => none

/-- The path name of something in a directory. -/
def join (directory inner : String) : String :=
  if directory = "" || endsInSlash directory then directory ++ inner
  else directory ++ "/" ++ inner

/-- The path name of the directory that something is in. -/
def parent (path : String) : String :=
  let trimmed := path.toList.reverse.dropWhile (· = '/')
  let above := (trimmed.dropWhile (· ≠ '/')).dropWhile (· = '/')
  if above.isEmpty && isAbsolute path then "/" else String.ofList above.reverse

/-- Whether one list of segments comes before another, or is the same. -/
def isBefore : List String → List String → Bool
  | [], _ => true
  | _ :: _, [] => false
  | a :: as, b :: bs => a < b || (a = b && isBefore as bs)

/-- The order of path names, segment by segment. -/
def le (a b : String) : Bool := isBefore (segments a) (segments b)

end ClassLoom.PathName
