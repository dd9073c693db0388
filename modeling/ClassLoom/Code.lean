import ClassLoom.ClassFile

/-!
# Method bodies

The code attribute of a method: its bytes of code, the limits of its frame, its exception
handlers and its own attributes.
-/

namespace ClassLoom

/-! ## Bodies -/

/-- A range of code that is protected, and where control goes when it throws. -/
structure ExceptionHandler where
  start : UInt16
  /-- The first offset that is protected no more. -/
  stop : UInt16
  target : UInt16
  /-- The index of the class that is caught; zero stands for all. -/
  catchType : UInt16
  deriving DecidableEq, Repr

/-- A method body. -/
structure Code where
  maxStack : UInt16
  maxLocals : UInt16
  bytecode : Bytes
  handlers : List ExceptionHandler := []
  attributes : List Attribute := []
  deriving DecidableEq, Repr

namespace ExceptionHandler

/-- Reads an exception handler. -/
def read : Reader ExceptionHandler := do
  let start ← Reader.word16
  let stop ← Reader.word16
  let target ← Reader.word16
  let catchType ← Reader.word16
  return { start, stop, target, catchType }

/-- The written form of an exception handler. -/
def bytes (h : ExceptionHandler) : Bytes :=
  Bytes.word16 h.start ++ Bytes.word16 h.stop ++ Bytes.word16 h.target
    ++ Bytes.word16 h.catchType

end ExceptionHandler

namespace Code

/-- The attribute that holds a method body. -/
def attributeName : String := "Code"

/-- Reads a body. The code must not be empty and must fit the format. -/
def read (pool : ConstantPool) : Reader Code := do
  let maxStack ← Reader.word16
  let maxLocals ← Reader.word16
  let length ← Reader.word32
  if length = 0 || length.toNat > 65535 then throw (.malformed attributeName)
  let bytecode ← Reader.bytes length.toNat
  let handlers ← Reader.table ExceptionHandler.read
  let attributes ← Attribute.readTable pool
  return { maxStack, maxLocals, bytecode, handlers, attributes }

/-- Reads a body that takes up the whole payload. -/
def parse (pool : ConstantPool) (info : Bytes) : Except ClassError Code :=
  Reader.all (read pool) info

/-- The written form of a body. -/
def bytes (code : Code) : Interning Bytes := do
  if code.bytecode.length > 65535 then throw (.codeTooLarge code.bytecode.length)
  let count ← Bytes.count16 code.handlers.length
  let attributes ← Attribute.tableBytes code.attributes
  return Bytes.word16 code.maxStack ++ Bytes.word16 code.maxLocals
    ++ Bytes.word32 (UInt32.ofNat code.bytecode.length) ++ code.bytecode
    ++ count ++ code.handlers.flatMap ExceptionHandler.bytes ++ attributes

end Code

/-! ## Bodies of methods -/

namespace Member

/-- The body of a method, if it has one. -/
def code? (m : Member) (pool : ConstantPool) : Except ClassError (Option Code) :=
  match Attribute.find? Code.attributeName m.attributes with
  | some a => some <$> Code.parse pool a.info
  | none => return none

/-- Gives a method the body `code`, in the place of the one it has. -/
def setCode (m : Member) (code : Code) : Interning Member := do
  let info ← code.bytes
  return { m with attributes := Attribute.set Code.attributeName info m.attributes }

end Member
end ClassLoom
