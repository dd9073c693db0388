import ClassLoom.Error

/-!
# Bytes, words and readers

Class files are big-endian. This module holds the bytes of words (`word16`, `word32`,
`word64`), the readers that take them apart again, and the two shapes every table has: a
16-bit count, then that many items.

A `Reader` is a function of the bytes that are left, so a law about one is a law about lists.
-/

namespace ClassLoom

/-- A sequence of bytes. -/
abbrev Bytes := List UInt8

/-! ## Words

Words are written high byte first. Reading the bytes of a word gives it back, whatever stands behind
them. -/

namespace Bytes

/-- The two bytes of a 16-bit word, high byte first. -/
def word16 (w : UInt16) : Bytes :=
  [UInt8.ofNat (w.toNat / 256), UInt8.ofNat w.toNat]

/-- The four bytes of a 32-bit word, high byte first. -/
def word32 (w : UInt32) : Bytes :=
  [UInt8.ofNat (w.toNat / 16777216), UInt8.ofNat (w.toNat / 65536),
    UInt8.ofNat (w.toNat / 256), UInt8.ofNat w.toNat]

/-- The eight bytes of a 64-bit word, high byte first. -/
def word64 (w : UInt64) : Bytes :=
  word32 (UInt32.ofNat (w.toNat / 4294967296)) ++ word32 (UInt32.ofNat w.toNat)

/-- The 16-bit word with the given bytes. -/
def toWord16 (a b : UInt8) : UInt16 := UInt16.ofNat (a.toNat * 256 + b.toNat)

/-- The 32-bit word with the given bytes. -/
def toWord32 (a b c d : UInt8) : UInt32 :=
  UInt32.ofNat (a.toNat * 16777216 + b.toNat * 65536 + c.toNat * 256 + d.toNat)

/-- The 64-bit word with the given halves. -/
def toWord64 (high low : UInt32) : UInt64 :=
  UInt64.ofNat (high.toNat * 4294967296 + low.toNat)

/-- A 16-bit word is known by its two bytes. -/
theorem toWord16_word16 (w : UInt16) :
    toWord16 (UInt8.ofNat (w.toNat / 256)) (UInt8.ofNat w.toNat) = w := by
  have h := w.toNat_lt
  apply UInt16.toNat.inj
  simp only [toWord16, UInt8.toNat_ofNat', UInt16.toNat_ofNat']
  omega

/-- A 32-bit word is known by its four bytes. -/
theorem toWord32_word32 (w : UInt32) :
    toWord32 (UInt8.ofNat (w.toNat / 16777216)) (UInt8.ofNat (w.toNat / 65536))
      (UInt8.ofNat (w.toNat / 256)) (UInt8.ofNat w.toNat) = w := by
  have h := w.toNat_lt
  apply UInt32.toNat.inj
  simp only [toWord32, UInt8.toNat_ofNat', UInt32.toNat_ofNat']
  omega

/-- A 64-bit word is known by its two halves. -/
theorem toWord64_halves (w : UInt64) :
    toWord64 (UInt32.ofNat (w.toNat / 4294967296)) (UInt32.ofNat w.toNat) = w := by
  have h := w.toNat_lt
  apply UInt64.toNat.inj
  simp only [toWord64, UInt32.toNat_ofNat', UInt64.toNat_ofNat']
  omega

@[simp] theorem length_word16 (w : UInt16) : (word16 w).length = 2 := rfl

@[simp] theorem length_word32 (w : UInt32) : (word32 w).length = 4 := rfl

/-- A count of table entries as a 16-bit word, or a failure if it needs more. -/
def count16 (n : Nat) : Except ClassError Bytes :=
  if n < 65536 then .ok (word16 (UInt16.ofNat n)) else .error .tableTooLong

end Bytes

/-! ## Readers

A reader takes bytes off the front of what is left, or fails. Counts are read before what they
count, so a reader never has to look ahead. -/

/-- Reads an item off the front of the bytes that are left. -/
abbrev Reader := StateT Bytes (Except ClassError)

namespace Reader

/-- The next byte. -/
def byte : Reader UInt8
  | b :: rest => .ok (b, rest)
  | [] => .error .unexpectedEnd

/-- The next 16-bit word. -/
def word16 : Reader UInt16
  | a :: b :: rest => .ok (Bytes.toWord16 a b, rest)
  | _ => .error .unexpectedEnd

/-- The next 32-bit word. -/
def word32 : Reader UInt32
  | a :: b :: c :: d :: rest => .ok (Bytes.toWord32 a b c d, rest)
  | _ => .error .unexpectedEnd

/-- The next 64-bit word. -/
def word64 : Reader UInt64 := do
  let high ← word32
  let low ← word32
  return Bytes.toWord64 high low

/-- The next `n` bytes. -/
def bytes (n : Nat) : Reader Bytes := fun bs =>
  let (taken, rest) := bs.splitAt n
  if taken.length = n then .ok (taken, rest) else .error .unexpectedEnd

/-- Succeeds only where no bytes are left. -/
def finish : Reader Unit
  | [] => .ok ((), [])
  | _ :: _ => .error .trailingBytes

/-- `times p n` after the items `done`, last one first. -/
def timesOnto {α : Type} (p : Reader α) : Nat → List α → Bytes → Except ClassError (List α × Bytes)
  | 0, done, bs => .ok (done.reverse, bs)
  | n + 1, done, bs =>
    match p bs with
    | .ok (a, rest) => timesOnto p n (a :: done) rest
    | .error e => .error e

/-- `n` items, one after the other. -/
def times {α : Type} (n : Nat) (p : Reader α) : Reader (List α) := timesOnto p n []

/-- A table: a 16-bit count, then that many items. -/
def table {α : Type} (p : Reader α) : Reader (List α) := do
  let count ← word16
  times count.toNat p

/-! ## What was written is read -/

/-- A written word is read back, and what stands behind it is left. -/
theorem word16_append (w : UInt16) (rest : Bytes) :
    word16 (Bytes.word16 w ++ rest) = .ok (w, rest) :=
  congrArg (fun read => Except.ok (read, rest)) (Bytes.toWord16_word16 w)

/-- The same for words of 32 bits. -/
theorem word32_append (w : UInt32) (rest : Bytes) :
    word32 (Bytes.word32 w ++ rest) = .ok (w, rest) :=
  congrArg (fun read => Except.ok (read, rest)) (Bytes.toWord32_word32 w)

/-- The same for words of 64 bits, which are read as two halves, the high one first. -/
theorem word64_append (w : UInt64) (rest : Bytes) :
    word64 (Bytes.word64 w ++ rest) = .ok (w, rest) := by
  simp only [word64, Bytes.word64, List.append_assoc, bind, StateT.bind, word32_append, Except.bind]
  exact congrArg (fun read => Except.ok (read, rest)) (Bytes.toWord64_halves w)

/-- As many bytes are taken as were asked for, and no more. -/
theorem bytes_append (taken rest : Bytes) :
    bytes taken.length (taken ++ rest) = .ok (taken, rest) := by
  simp [bytes, List.splitAt_eq]

/-- Reads one item that must take up all of `bs`. -/
def all {α : Type} (p : Reader α) (bs : Bytes) : Except ClassError α := do
  let (a, rest) ← p bs
  let _ ← finish rest
  return a

end Reader
end ClassLoom
