import ClassLoom.ClassFile
import ClassLoom.Descriptor

/-!
# Annotations

Which annotation types a class or member carries. Element values are read over by their
structure alone: only the types of the outermost annotations are kept.
-/

namespace ClassLoom

/-- An annotation, known by its type. -/
structure Annotation where
  typeDescriptor : String
  /-- The internal name of the type, if the descriptor is that of a class. -/
  typeName : Option String
  deriving DecidableEq, Repr

namespace Annotation

/-- The attribute of annotations that a running program can see. -/
def visibleTable : String := "RuntimeVisibleAnnotations"

/-- The attribute of annotations that are kept in the class file only. -/
def invisibleTable : String := "RuntimeInvisibleAnnotations"

/-! ## Element values

Values can be nested, in arrays and in annotations that are values themselves. Reading takes a depth
to recurse on; it is chosen so that it never matters. -/

/-- Whether an element value with this tag is a single constant. -/
def isConstantTag (tag : UInt8) : Bool :=
  ['B', 'C', 'D', 'F', 'I', 'J', 'S', 'Z', 's', 'c'].any (·.toNat = tag.toNat)

/-- Reads over one element value whose values are nested less than `depth` deep. A value
takes at least one byte, so a depth above the number of bytes is never used up first. -/
def skipValue : Nat → Reader Unit
  | 0 => throw .unexpectedEnd
  | depth + 1 => do
    let tag ← Reader.byte
    if isConstantTag tag then
      let _ ← Reader.word16
    else if tag.toNat = 'e'.toNat then
      let _ ← Reader.word16
      let _ ← Reader.word16
    else if tag.toNat = '@'.toNat then
      let _ ← Reader.word16
      let _ ← Reader.table do
        let _ ← Reader.word16
        skipValue depth
    else if tag.toNat = '['.toNat then
      let _ ← Reader.table (skipValue depth)
    else throw (.malformed visibleTable)

/-! ## Tables -/

/-- Reads an annotation. -/
def read (pool : ConstantPool) (depth : Nat) : Reader Annotation := do
  let typeDescriptor ← pool.getUtf8 (← Reader.word16)
  let _ ← Reader.table do
    let _ ← Reader.word16
    skipValue depth
  return { typeDescriptor, typeName := FieldType.classNameIn? typeDescriptor }

/-- The annotations in the payload of an annotation table. -/
def parseAll (pool : ConstantPool) (info : Bytes) : Except ClassError (List Annotation) :=
  Reader.all (Reader.table (read pool (info.length + 1))) info

/-- The annotations in all tables among `attributes`, in order. -/
def ofAttributes (pool : ConstantPool) (attributes : List Attribute) :
    Except ClassError (List Annotation) := do
  let tables := attributes.filter fun a => a.name = visibleTable || a.name = invisibleTable
  let parsed ← tables.mapM fun a => parseAll pool a.info
  return parsed.flatten

end Annotation

/-- The annotations of a class. -/
def ClassFile.annotations (c : ClassFile) : Except ClassError (List Annotation) :=
  Annotation.ofAttributes c.pool c.attributes

/-- The annotations of a member of a class with the given pool. -/
def Member.annotations (m : Member) (pool : ConstantPool) : Except ClassError (List Annotation) :=
  Annotation.ofAttributes pool m.attributes

end ClassLoom
