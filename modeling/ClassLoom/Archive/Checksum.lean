/-!
# Checksums

The cyclic redundancy check of archives: the remainder of a sequence of bits by the polynomial
`0xedb88320`, lowest bit first, started and finished with all bits inverted.
-/

namespace ClassLoom.Archive

/-- Takes one bit into a remainder. -/
def checksumBit (r : UInt32) : UInt32 :=
  if r &&& 1 = 1 then (r >>> 1) ^^^ 0xedb88320 else r >>> 1

/-- Takes so many bits into a remainder. -/
def checksumBits : Nat → UInt32 → UInt32
  | 0, r => r
  | n + 1, r => checksumBits n (checksumBit r)

/-- Takes a byte into a remainder. -/
def checksumByte (r : UInt32) (b : UInt8) : UInt32 := checksumBits 8 (r ^^^ b.toUInt32)

/-- The checksum of bytes. -/
def checksum (data : ByteArray) : UInt32 := ~~~(data.foldl checksumByte 0xffffffff)

end ClassLoom.Archive
