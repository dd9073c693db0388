/-!
# Access flags

The flags of classes, fields and methods that matter to weaving, as bits of a 16-bit word.
-/

namespace ClassLoom.Access

/-- Visible everywhere. -/
def publicFlag : UInt16 := 0x0001

/-- Visible in its class only. -/
def privateFlag : UInt16 := 0x0002

/-- A member of the class itself, not of its instances. -/
def staticFlag : UInt16 := 0x0008

/-- Assigned once. -/
def finalFlag : UInt16 := 0x0010

/-- An interface. -/
def interfaceFlag : UInt16 := 0x0200

/-- Without a body. -/
def abstractFlag : UInt16 := 0x0400

/-- Not in the source text. -/
def syntheticFlag : UInt16 := 0x1000

/-- Whether all bits of `flag` are set in `flags`. -/
def has (flags flag : UInt16) : Bool := flags &&& flag == flag

end ClassLoom.Access
