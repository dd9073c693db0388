import ClassLoom.Archive.Directory
import ClassLoom.ClassFile.Format
import ClassLoom.ClassStub
import ClassLoom.Text.Blank
import Std.Data.TreeMap

/-!
# Jars

Which classes a jar holds. A jar whose manifest says so can hold classes in several layers:
the base, and one directory for each version of the platform from some version on. A class of
the base comes first, and the first one of its name; of the others the one of the highest
version, and again the first.
-/

namespace ClassLoom

/-! ## Classes among files -/

namespace ClassStub

/-- Whether a name is that of a file that declares a package or a module, and no class. -/
def isDeclarationName (name : String) : Bool :=
  name = "module-info" || name = "package-info"
    || "/package-info".toList.reverse.isPrefixOf name.toList.reverse

/-- The stub of a class file. Files without one, and files that are no class, are left out. -/
def ofBytes? (content : Bytes) : Option ClassStub :=
  match ClassFile.parse content >>= ClassFile.stub with
  | .ok stub => if isDeclarationName stub.name then none else some stub
  | .error _ => none

end ClassStub

/-! ## Layers

The layer of an entry follows from its name alone. What is in the jar's own directory belongs to no
layer, except for the layers of later versions. -/

namespace Jar

/-- The directory of a jar's own files. -/
def ownDirectory : String := "META-INF/"

/-- The directory of layers. -/
def layerDirectory : String := "META-INF/versions/"

/-- The file that tells whether a jar has layers. -/
def manifestName : String := "META-INF/MANIFEST.MF"

/-- A character in lower case, as far as it is ASCII. -/
def lower (cs : List Char) : List Char := cs.map Char.toLower

/-- Whether a line of a manifest says that the jar has layers. -/
def saysMultiRelease (line : List Char) : Bool :=
  match line.span (· ≠ ':') with
  | (key, _ :: value) =>
    lower (Text.trimChars key) = "multi-release".toList
      && lower (Text.trimChars value) = "true".toList
  | _ => false

/-- The lines of a text, without their ends. -/
def lines (cs : List Char) : List (List Char) := cs.splitOn '\n'

/-- Whether a manifest says that the jar has layers. -/
def isMultiRelease (manifest : String) : Bool := (lines manifest.toList).any saysMultiRelease

/-- A 32-bit version number. -/
def version? (cs : List Char) : Option Nat :=
  let digits := if cs.head? = some '+' then cs.drop 1 else cs
  if digits.isEmpty || !digits.all Char.isDigit then none
  else
    let n := digits.foldl (fun n c => n * 10 + (c.toNat - 48)) 0
    if n < 4294967296 then some n else none

/-- The layer that an entry of a jar belongs to, zero for the base; nothing for entries that are
no class or do not count. -/
def layer? (multiRelease : Bool) (name : String) : Option Nat :=
  let cs := name.toList
  if !".class".toList.reverse.isPrefixOf cs.reverse then none
  else
    match layerDirectory.toList.isPrefixOf? cs with
    | some rest =>
      match rest.span (· ≠ '/') with
      | (version, _ :: _) => if multiRelease then version? version else none
      | _ => none
    | none => if ownDirectory.toList.isPrefixOf cs then none else some 0

/-! ## The class of a name

The base wins over all layers, and a class that is only in layers is taken from the highest one. -/

/-- Whether a class of the layer `new` takes the place of one of the layer `old`. -/
def isBetter (old : Option Nat) (new : Nat) : Bool :=
  match old with
  | none => true
  | some 0 => false
  | some old => new = 0 || old < new

/-- Takes a class of a layer up, if it is better than the one of its name so far. -/
def addStub (best : Std.TreeMap String (Nat × ClassStub)) (layer : Nat) (stub : ClassStub) :
    Std.TreeMap String (Nat × ClassStub) :=
  if isBetter (best[stub.name]?.map (·.1)) layer then best.insert stub.name (layer, stub) else best

/-- Takes an entry of a jar up. -/
def addEntry (multiRelease : Bool) (best : Std.TreeMap String (Nat × ClassStub))
    (entry : String × Bytes) : Std.TreeMap String (Nat × ClassStub) :=
  match layer? multiRelease entry.1, ClassStub.ofBytes? entry.2 with
  | some layer, some stub => addStub best layer stub
  | _, _ => best

/-- The classes among the entries of a jar, by name. -/
def stubs (multiRelease : Bool) (entries : List (String × Bytes)) : List ClassStub :=
  (entries.foldl (addEntry multiRelease) ∅).toList.map fun (_, _, stub) => stub

/-! ## Reading a jar -/

/-- Whether the manifest among the entries of an archive says that there are layers. Of several
manifests the last counts; one that cannot be read says nothing. -/
def readMultiRelease (file : ByteArray) (entries : List Archive.Entry) : Bool :=
  match entries.reverse.find? (·.name = manifestName) with
  | none => false
  | some e =>
    match Archive.compressedData file e >>= Archive.expand e with
    | .error _ => false
    | .ok data => (String.fromUTF8? data).any isMultiRelease

/-- Reads an entry, if it is a class that counts. -/
def readEntry (file : ByteArray) (multiRelease : Bool) (e : Archive.Entry) :
    Except Archive.ArchiveError (Option (String × Bytes)) := do
  let compressed ← Archive.compressedData file e
  if (layer? multiRelease e.name).isNone then return none
  return some (e.name, (← Archive.expand e compressed).toList)

/-- The classes in a jar. -/
def read (file : ByteArray) : Except Archive.ArchiveError (List ClassStub) := do
  let entries ← Archive.entries file
  let multiRelease := readMultiRelease file entries
  let classes ← entries.mapM (readEntry file multiRelease)
  return stubs multiRelease (classes.filterMap id)

end Jar
end ClassLoom
