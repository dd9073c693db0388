import ClassLoom.Code

/-!
# Line numbers

Tables that give the source line from a code offset on. Tables may be split, unsorted and
hold an offset twice; the last entry of the nearest offset counts.
-/

namespace ClassLoom

/-- From `start` on, code comes from `line`. -/
structure LineNumber where
  start : UInt16
  line : UInt16
  deriving DecidableEq, Repr

namespace LineNumber

/-- The attribute that holds line numbers. -/
def tableName : String := "LineNumberTable"

/-- Reads an entry. -/
def read : Reader LineNumber := do
  let start ← Reader.word16
  let line ← Reader.word16
  return { start, line }

/-- The entries in a payload. -/
def parseTable (info : Bytes) : Except ClassError (List LineNumber) :=
  Reader.all (Reader.table read) info

/-- The payload with the given entries. -/
def tableBytes (entries : List LineNumber) : Except ClassError Bytes := do
  let count ← Bytes.count16 entries.length
  return count ++ entries.flatMap fun e => Bytes.word16 e.start ++ Bytes.word16 e.line

/-- The better of the best entry so far and the next one, for the offset `pc`: the one that
starts later, but not behind `pc`; of two with one start, the next. -/
def closer (pc : Nat) (best : Option LineNumber) (next : LineNumber) : Option LineNumber :=
  if next.start.toNat ≤ pc then
    match best with
    | none => some next
    | some b => if b.start ≤ next.start then some next else best
  else best

end LineNumber

namespace Code

/-- All line numbers of a body, table by table. Tables that cannot be read count for nothing. -/
def lineNumbers (code : Code) : List LineNumber :=
  (code.attributes.filter (·.name = LineNumber.tableName)).flatMap fun a =>
    (LineNumber.parseTable a.info).toOption.getD []

/-- The source line of the instruction at `pc`. -/
def lineAt? (code : Code) (pc : Nat) : Option UInt16 :=
  (code.lineNumbers.foldl (LineNumber.closer pc) none).map (·.line)

end Code
end ClassLoom
