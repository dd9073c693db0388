/-!
# Compressed data

Reads data compressed with DEFLATE: blocks that are stored as they are, or written with prefix
codes for bytes and for copies of what came before. Bits are taken lowest first.

Data that breaks off gives what could be read of it; the checksum tells whether that is all.
-/

namespace ClassLoom.Archive.Inflate

/-! ## Bits and bytes

Reading is a state transformer that keeps what was written when it stops, since data that breaks off
still counts for what could be read of it. -/

/-- Why reading stops. -/
inductive Stop where
  /-- The data breaks off. -/
  | truncated
  /-- The data follows no block format. -/
  | corrupt
  deriving DecidableEq, Repr

/-- How far the reading has come. -/
structure Progress where
  /-- The number of bits that have been read. -/
  position : Nat := 0
  out : ByteArray := .empty

/-- Reads bits and writes bytes; what was written stays when reading stops. -/
abbrev Inflating := EStateM Stop Progress

/-- Reads a bit. -/
def bit (data : ByteArray) : Inflating Nat := fun s =>
  let i := s.position / 8
  if h : i < data.size then
    .ok (data[i].toNat >>> (s.position % 8) % 2) { s with position := s.position + 1 }
  else .error .truncated s

/-- Reads a number of so many bits. -/
def bits (data : ByteArray) : Nat → Inflating Nat
  | 0 => return 0
  | n + 1 => do
    let low ← bit data
    let high ← bits data n
    return low + 2 * high

/-- Writes a byte. -/
def write (b : UInt8) : Inflating Unit := modify fun s => { s with out := s.out.push b }

/-! ## Prefix codes

A code is given by the lengths of its code words alone: words of one length are consecutive numbers,
in the order of their symbols, and longer words follow shorter ones. -/

/-- A prefix code: how many code words there are of every length, and the symbols in the order
of their code words. -/
structure PrefixCode where
  counts : Array Nat
  symbols : Array Nat

/-- The longest code word. -/
def maxLength : Nat := 15

namespace PrefixCode

/-- The code in which symbols have code words of the given lengths, zero standing for none.
There must not be more code words than fit, nor fewer unless there is at most one. -/
def ofLengths (lengths : Array Nat) : Inflating PrefixCode := do
  let ofLength (n : Nat) : List Nat :=
    (List.range lengths.size).filter fun symbol => lengths[symbol]?.getD 0 = n
  let bySize := (List.range maxLength).map fun n => ofLength (n + 1)
  let used := bySize.flatten.length
  let space := bySize.zipIdx.foldr
    (fun (symbols, n) space => symbols.length <<< (maxLength - 1 - n) + space) 0
  -- A code with a single symbol leaves half of the words unused, and is allowed to.
  if space > 1 <<< maxLength || (space < 1 <<< maxLength && used > 1) then throw .corrupt
  return { counts := (bySize.map List.length).toArray, symbols := bySize.flatten.toArray }

/-- Reads the rest of a code word of which `n` bits, with the value `word`, have been read.
Code words of more bits start at the value `first` and at the index `index` of the symbols. -/
def readFrom (code : PrefixCode) (data : ByteArray) (n word first index : Nat) :
    Inflating Nat := do
  if n < maxLength then
    let word := 2 * word + (← bit data)
    let count := code.counts[n]?.getD 0
    -- Words of one length are consecutive numbers, so the difference to the first one is the
    -- position among their symbols.
    if word < first + count then
      match code.symbols[index + (word - first)]? with
      | some symbol => return symbol
      | none => throw .corrupt
    else readFrom code data (n + 1) word (2 * (first + count)) (index + count)
  else throw .corrupt
termination_by maxLength - n

/-- Reads a symbol. -/
def read (code : PrefixCode) (data : ByteArray) : Inflating Nat := code.readFrom data 0 0 0 0

end PrefixCode

/-! ## Copies

A copy repeats bytes that were written before. It may overlap what it writes, so it goes byte by
byte. -/

/-- Reads the length of a copy, by its symbol counted from the first one for copies. Lengths
grow by powers of two, four symbols each. -/
def copyLength (data : ByteArray) (n : Nat) : Inflating Nat := do
  if n < 8 then return n + 3
  else if n < 28 then
    let extra := n / 4 - 1
    return (4 + n % 4) <<< extra + 3 + (← bits data extra)
  else if n = 28 then return 258
  else throw .corrupt

/-- Reads the distance of a copy, by its symbol. Distances grow by powers of two, two symbols
each. -/
def copyDistance (data : ByteArray) (n : Nat) : Inflating Nat := do
  if n < 4 then return n + 1
  else if n < 30 then
    let extra := n / 2 - 1
    return (2 + n % 2) <<< extra + 1 + (← bits data extra)
  else throw .corrupt

/-- Writes so many bytes again that were written `distance` bytes before. -/
def copy (distance : Nat) : Nat → Inflating Unit
  | 0 => return
  | n + 1 => do
    let out := (← get).out
    if h : distance ≤ out.size ∧ 0 < distance then
      let b := out[out.size - distance]
      write b
      copy distance n
    else throw .corrupt

/-! ## Blocks

A block is stored, or written in the fixed code, or in a code of its own, which stands in front of
it as the lengths of its code words. -/

/-- Reads the symbols of a block up to its end, at most so many. -/
def symbols (data : ByteArray) (literals distances : PrefixCode) : Nat → Inflating Unit
  | 0 => throw .truncated
  | fuel + 1 => do
    let symbol ← literals.read data
    if symbol < 256 then
      write (UInt8.ofNat symbol)
      symbols data literals distances fuel
    else if symbol = 256 then return
    else
      let length ← copyLength data (symbol - 257)
      let distance ← copyDistance data (← distances.read data)
      copy distance length
      symbols data literals distances fuel

/-- Writes so many bytes as they are. -/
def literalBytes (data : ByteArray) : Nat → Inflating Unit
  | 0 => return
  | n + 1 => do
    write (UInt8.ofNat (← bits data 8))
    literalBytes data n

/-- Reads a stored block, which starts at the next full byte. -/
def storedBlock (data : ByteArray) : Inflating Unit := do
  modify fun s => { s with position := (s.position + 7) / 8 * 8 }
  let length ← bits data 16
  let inverted ← bits data 16
  if length + inverted ≠ 65535 then throw .corrupt
  literalBytes data length

/-- The lengths of the fixed code for bytes and copies. -/
def fixedLengths : Array Nat :=
  (List.replicate 144 8 ++ List.replicate 112 9 ++ List.replicate 24 7
    ++ List.replicate 8 8).toArray

/-- Reads lengths of code words up to `total` behind the lengths `done`, at most so many
symbols. -/
def readLengths (data : ByteArray) (code : PrefixCode) (total : Nat) :
    Nat → Array Nat → Inflating (Array Nat)
  | 0, done => return done
  | fuel + 1, done => do
    if done.size = total then return done
    let symbol ← code.read data
    let (length, count) ←
      if symbol < 16 then pure (symbol, 1)
      else if symbol = 16 then
        match done.back? with
        | some length => pure (length, 3 + (← bits data 2))
        | none => throw .corrupt
      else if symbol = 17 then pure (0, 3 + (← bits data 3))
      else pure (0, 11 + (← bits data 7))
    if done.size + count > total then throw .corrupt
    readLengths data code total fuel (done ++ Array.replicate count length)

/-- The symbols of the code for lengths, in the order in which their own lengths come. -/
def lengthOrder : List Nat :=
  [16, 17, 18, 0, 8, 7, 9, 6, 10, 5, 11, 4, 12, 3, 13, 2, 14, 1, 15]

/-- Reads the two codes of a block that brings its own. -/
def dynamicCodes (data : ByteArray) : Inflating (PrefixCode × PrefixCode) := do
  let literalCount := 257 + (← bits data 5)
  let distanceCount := 1 + (← bits data 5)
  let lengthCount := 4 + (← bits data 4)
  if literalCount > 286 || distanceCount > 30 then throw .corrupt
  let given ← (lengthOrder.take lengthCount).mapM fun symbol => return (symbol, ← bits data 3)
  let lengths := (List.range 19).map fun symbol => (given.lookup symbol).getD 0
  let code ← PrefixCode.ofLengths lengths.toArray
  -- Both codes are written as one list of lengths, in which a repetition may go from one into the
  -- other.
  let total := literalCount + distanceCount
  let lengths ← readLengths data code total total #[]
  let literals ← PrefixCode.ofLengths (lengths.extract 0 literalCount)
  let distances ← PrefixCode.ofLengths (lengths.extract literalCount total)
  return (literals, distances)

/-- Reads blocks up to the last one, at most so many. -/
def blocks (data : ByteArray) : Nat → Inflating Unit
  | 0 => throw .truncated
  | fuel + 1 => do
    let last ← bit data
    match ← bits data 2 with
    | 0 => storedBlock data
    | 1 =>
      let literals ← PrefixCode.ofLengths fixedLengths
      let distances ← PrefixCode.ofLengths (Array.replicate 32 5)
      symbols data literals distances (8 * data.size + 1)
    | 2 =>
      let (literals, distances) ← dynamicCodes data
      symbols data literals distances (8 * data.size + 1)
    | _ => throw .corrupt
    if last = 0 then blocks data fuel

end Inflate

/-- The data that was compressed, as far as it can be read; nothing if it is corrupt. -/
def inflate? (data : ByteArray) : Option ByteArray :=
  match Inflate.blocks data (8 * data.size + 1) {} with
  | .ok _ s => some s.out
  | .error .truncated s => some s.out
  | .error .corrupt _ => none

end ClassLoom.Archive
