import ClassLoom.Archive.Checksum
import ClassLoom.Archive.Inflate

/-!
# Archives

Zip archives. The list of members stands at the end of the file, behind the members; what
comes before the first member does not belong to the archive and shifts all offsets. Large
archives have a second, wider record of where the list is.

Numbers are little-endian. Names are taken byte by byte: only ASCII parts of them matter.
-/

namespace ClassLoom.Archive

/-- Why an archive cannot be used. -/
inductive ArchiveError where
  /-- The file is no archive, or one with features that are not known. -/
  | malformed
  /-- The data of a member is damaged. -/
  | damaged
  deriving DecidableEq, Repr

/-- A member of an archive. -/
structure Entry where
  name : String
  isEncrypted : Bool
  /-- How the data is compressed: 0 stands for not at all, 8 for DEFLATE. -/
  method : Nat
  checksum : UInt32
  compressedSize : Nat
  size : Nat
  /-- Where the member's own header starts. -/
  header : Nat
  deriving DecidableEq, Repr

/-! ## Numbers and names

Fields are read at places in the file, and reading past its end fails. Places are natural numbers
without a bound, so sums of fields do not wrap around. -/

/-- The little-endian number in so many bytes from `position` on. -/
def number? (file : ByteArray) (position : Nat) : Nat → Option Nat
  | 0 => some 0
  | width + 1 =>
    if h : position < file.size then
      (number? file (position + 1) width).map fun high => file[position].toNat + 256 * high
    else none

/-- The number in so many bytes from `position` on, or a failure if the file ends before. -/
def number (file : ByteArray) (position width : Nat) : Except ArchiveError Nat :=
  match number? file position width with
  | some n => .ok n
  | none => .error .malformed

/-- The name in some bytes. -/
def nameOf (bytes : ByteArray) : String :=
  String.ofList (bytes.toList.map fun b => Char.ofNat b.toNat)

/-- The greatest 32-bit number, which says that a number is given elsewhere. -/
def elsewhere : Nat := 4294967295

/-! ## The list of members

The record at the end of the file may have a comment behind it, so it is looked for from the end
towards the start. If one of its numbers is too small for the archive, a wider record has them
all. -/

/-- The last place, at most so far in front of `position`, where the record at the end of the
file can start. -/
def findEnd (file : ByteArray) (position : Nat) : Nat → Option Nat
  | 0 => none
  | tries + 1 =>
    if number? file position 4 = some 0x06054b50 then some position
    else if position = 0 then none
    else findEnd file (position - 1) tries

/-- The first place from `position` on, among so many, where the wider record can start. -/
def findWideEnd (file : ByteArray) (position : Nat) : Nat → Option Nat
  | 0 => none
  | tries + 1 =>
    if number? file position 4 = some 0x06064b50 then some position
    else findWideEnd file (position + 1) tries

/-- Where the list of members is. -/
structure ListPlace where
  start : Nat
  count : Nat
  /-- The bytes in front of the archive. -/
  shift : Nat

/-- Looks the list up in the wider record, of which a locator says where it should be. -/
def wideListPlace (file : ByteArray) (locator endAt : Nat) (disk? : Option Nat) :
    Except ArchiveError ListPlace := do
  let locatorDisk ← number file (locator + 4) 4
  let nominal ← number file (locator + 8) 8
  if disk?.any (· ≠ locatorDisk) then throw .malformed
  if endAt < 60 then throw .malformed
  let some position := findWideEnd file nominal (endAt - 60 + 1 - nominal) | throw .malformed
  let disk ← number file (position + 16) 4
  let listDisk ← number file (position + 20) 4
  let count ← number file (position + 32) 8
  let offset ← number file (position + 48) 8
  if disk ≠ listDisk then throw .malformed
  -- What comes before the archive moves all places in it by the same distance.
  let shift := position - nominal
  return { start := offset + shift, count, shift }

/-- Looks the list up in the records at the end of a file. -/
def listPlace (file : ByteArray) : Except ArchiveError ListPlace := do
  if file.size < 22 then throw .malformed
  let some endAt := findEnd file (file.size - 22) 65536 | throw .malformed
  let disk ← number file (endAt + 4) 2
  let listDisk ← number file (endAt + 6) 2
  let count ← number file (endAt + 8) 2
  let total ← number file (endAt + 10) 2
  let size ← number file (endAt + 12) 4
  let offset ← number file (endAt + 16) 4
  let commentSize ← number file (endAt + 20) 2
  if endAt + 22 + commentSize > file.size then throw .malformed
  let isTooSmall := disk = 65535 || listDisk = 65535 || count = 65535 || total = 65535
    || size = elsewhere || offset = elsewhere
  if !isTooSmall && disk ≠ listDisk then throw .malformed
  -- The locator of the wider record stands directly in front of this one.
  let locator := file.size - (42 + commentSize)
  if 42 + commentSize ≤ file.size && number? file locator 4 = some 0x07064b50 then
    wideListPlace file locator endAt (if isTooSmall then none else some disk)
  else if size + offset ≤ endAt then
    return { start := endAt - size, count, shift := endAt - size - offset }
  else throw .malformed

/-! ## Members

Each member of the list has a fixed part, a name, extra fields and a comment. Of the extra fields
only the one with wider numbers counts. -/

/-- Takes a number that is given elsewhere, behind `skipped` bytes of the field at `position`,
if it is. -/
def wideNumber (file : ByteArray) (position stop skipped n : Nat) : Option (Nat × Nat) :=
  if n ≠ elsewhere then some (n, skipped)
  else if position + skipped + 8 ≤ stop then
    (number? file (position + skipped) 8).map fun n => (n, skipped + 8)
  else none

/-- Takes the wider numbers of a field of `length` bytes that ends before `stop`. Gives how many
bytes have been read; nothing if the field is too short for all of them. -/
def wideSizes (file : ByteArray) (position stop length : Nat) (e : Entry) :
    Entry × Option Nat :=
  match wideNumber file position stop 0 e.size with
  | none => (e, none)
  | some (size, used) =>
    let e := { e with size }
    match wideNumber file position stop used e.compressedSize with
    | none => (e, none)
    | some (compressedSize, used) =>
      let e := { e with compressedSize }
      match wideNumber file position stop used e.header with
      | none => (e, none)
      | some (header, used) => ({ e with header }, some (max used length))

/-- Takes the extra fields between two places up, at most so many. Fields that break off count
for nothing; those about a kind of encryption that is not known are refused. -/
def extraFields (file : ByteArray) (stop : Nat) : Nat → Nat → Entry → Except ArchiveError Entry
  | 0, _, e => return e
  | fuel + 1, position, e =>
    if stop < position + 4 then return e
    else
      match number? file position 2, number? file (position + 2) 2 with
      | some 0x0001, some length =>
        match wideSizes file (position + 4) stop length e with
        | (e, some used) => extraFields file stop fuel (position + 4 + used) e
        | (e, none) => return e
      | some 0x9901, some _ => throw .malformed
      | some _, some length => extraFields file stop fuel (position + 4 + length) e
      | _, _ => return e

/-- Reads the member of the list at `position`, and where the next one is. -/
def readEntry (file : ByteArray) (shift position : Nat) : Except ArchiveError (Entry × Nat) := do
  if (← number file position 4) ≠ 0x02014b50 then throw .malformed
  let flags ← number file (position + 8) 2
  let method ← number file (position + 10) 2
  let checksum ← number file (position + 16) 4
  let compressedSize ← number file (position + 20) 4
  let size ← number file (position + 24) 4
  let nameSize ← number file (position + 28) 2
  let extraSize ← number file (position + 30) 2
  let commentSize ← number file (position + 32) 2
  let header ← number file (position + 42) 4
  let nameAt := position + 46
  let extraAt := nameAt + nameSize
  let commentAt := extraAt + extraSize
  let next := commentAt + commentSize
  if next > file.size then throw .malformed
  let entry : Entry :=
    { name := nameOf (file.extract nameAt extraAt)
      isEncrypted := flags % 2 = 1
      method, checksum := UInt32.ofNat checksum, compressedSize, size, header }
  let entry ← extraFields file commentAt extraSize extraAt entry
  return ({ entry with header := entry.header + shift }, next)

/-- Reads so many members of the list from `position` on, behind those in `done`, last one
first. -/
def entriesFrom (file : ByteArray) (shift : Nat) :
    Nat → Nat → List Entry → Except ArchiveError (List Entry)
  | 0, _, done => return done.reverse
  | count + 1, position, done => do
    let (entry, next) ← readEntry file shift position
    entriesFrom file shift count next (entry :: done)

/-- The members of an archive, in the order of its list. -/
def entries (file : ByteArray) : Except ArchiveError (List Entry) := do
  let place ← listPlace file
  entriesFrom file place.shift place.count place.start []

/-! ## The data of members

Every member has a header of its own in front of its data, which repeats the name and may have other
extra fields than the list. -/

/-- The compressed data of a member. Encrypted members and other ways to compress than DEFLATE
are refused. -/
def compressedData (file : ByteArray) (e : Entry) : Except ArchiveError ByteArray := do
  if e.isEncrypted then throw .malformed
  if (← number file e.header 4) ≠ 0x04034b50 then throw .malformed
  let nameSize ← number file (e.header + 26) 2
  let extraSize ← number file (e.header + 28) 2
  if e.method ≠ 0 && e.method ≠ 8 then throw .malformed
  let start := e.header + 30 + nameSize + extraSize
  return file.extract start (min file.size (start + e.compressedSize))

/-- The data of a member, out of its compressed data. -/
def expand (e : Entry) (compressed : ByteArray) : Except ArchiveError ByteArray :=
  match if e.method = 0 then some compressed else inflate? compressed with
  | none => throw .damaged
  | some data => if checksum data = e.checksum then return data else throw .damaged

end ClassLoom.Archive
