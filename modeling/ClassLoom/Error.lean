/-!
# Failures

Every way in which reading, editing or writing a class file can fail. A failure is a cause
with the numbers and names that identify it; `ClassError.message` is the only place that
turns a cause into words.
-/

namespace ClassLoom

/-! ## Causes -/

/-- The kinds of constant pool slots, the unusable ones included. -/
inductive ConstantKind where
  | unusable
  | utf8
  | integer
  | float
  | long
  | double
  | classInfo
  | string
  | field
  | method
  | interfaceMethod
  | nameAndType
  | methodHandle
  | methodType
  | dynamic
  | invokeDynamic
  | moduleInfo
  | packageInfo
  deriving DecidableEq, Repr

/-- The name the class file format gives to a kind of constant. -/
def ConstantKind.name : ConstantKind → String
  | .unusable => "Unusable"
  | .utf8 => "Utf8"
  | .integer => "Integer"
  | .float => "Float"
  | .long => "Long"
  | .double => "Double"
  | .classInfo => "Class"
  | .string => "String"
  | .field => "Fieldref"
  | .method => "Methodref"
  | .interfaceMethod => "InterfaceMethodref"
  | .nameAndType => "NameAndType"
  | .methodHandle => "MethodHandle"
  | .methodType => "MethodType"
  | .dynamic => "Dynamic"
  | .invokeDynamic => "InvokeDynamic"
  | .moduleInfo => "Module"
  | .packageInfo => "Package"

/-- Why a class file, or a part of one, was refused. -/
inductive ClassError where
  /-- The bytes ended inside an item. -/
  | unexpectedEnd
  /-- Bytes are left over after the last item. -/
  | trailingBytes
  /-- The file does not start with the class file magic number. -/
  | badMagic (found : UInt32)
  /-- A pool index that is out of range or names an unusable slot. -/
  | badPoolIndex (index : UInt16)
  /-- A pool entry with an unknown tag. -/
  | badPoolTag (tag : UInt8)
  /-- A pool entry of another kind than the place that refers to it asks for. -/
  | poolKindMismatch (index : UInt16) (expected found : ConstantKind)
  /-- The pool has no room for another entry. -/
  | poolOverflow
  /-- Bytes that are not modified UTF-8, or a text too long to be written as such. -/
  | badModifiedUtf8
  /-- A text that is no field or method descriptor, or one with too many argument slots. -/
  | badDescriptor (text : String)
  /-- A structure whose own rules are broken; `name` says which. -/
  | malformed (name : String)
  /-- A byte that starts no instruction. -/
  | badOpcode (pc : Nat) (opcode : UInt8)
  /-- An offset that is not the start of an instruction. -/
  | badCodeOffset (pc : Nat)
  /-- A short branch that cannot reach its target. -/
  | branchOverflow (pc : Nat)
  /-- A method body longer than the format allows. -/
  | codeTooLarge (size : Nat)
  /-- A table with more entries than its count field can hold. -/
  | tableTooLong
  /-- A body with both stack map frames and subroutines. -/
  | subroutine
  /-- More local variable slots than the format allows. -/
  | localSlotOverflow
  deriving DecidableEq, Repr

/-! ## Words for causes -/

namespace Hex

/-- One lower-case hexadecimal digit. -/
def digit (n : Nat) : Char := (['0', '1', '2', '3', '4', '5', '6', '7', '8', '9', 'a', 'b', 'c',
  'd', 'e', 'f'][n % 16]?).getD '0'

/-- The last `width` hexadecimal digits of `n`, in front of `tail`. -/
def digitsOnto : Nat → Nat → List Char → List Char
  | 0, _, tail => tail
  | width + 1, n, tail => digitsOnto width (n / 16) (digit n :: tail)

/-- `n` in exactly `width` lower-case hexadecimal digits. -/
def padded (width n : Nat) : String := String.ofList (digitsOnto width n [])

end Hex

/-- A failure in words. -/
def ClassError.message : ClassError → String
  | .unexpectedEnd => "unexpected end of input"
  | .trailingBytes => "trailing bytes"
  | .badMagic found => "invalid classfile magic: 0x" ++ Hex.padded 8 found.toNat
  | .badPoolIndex index => "invalid constant pool index: " ++ toString index.toNat
  | .badPoolTag tag => "invalid constant pool tag: " ++ toString tag.toNat
  | .poolKindMismatch index expected found =>
    "constant pool type mismatch at index " ++ toString index.toNat ++ ": expected "
      ++ expected.name ++ ", found " ++ found.name
  | .poolOverflow => "constant pool exceeds 65535 entries"
  | .badModifiedUtf8 => "invalid modified UTF-8 constant"
  | .badDescriptor text => "invalid descriptor: " ++ text
  | .malformed name => "malformed " ++ name ++ " attribute"
  | .badOpcode pc opcode =>
    "invalid opcode 0x" ++ Hex.padded 2 opcode.toNat ++ " at pc " ++ toString pc
  | .badCodeOffset pc => "offset " ++ toString pc ++ " is not an instruction boundary"
  | .branchOverflow pc =>
    "branch at pc " ++ toString pc ++ " cannot reach its target after patching"
  | .codeTooLarge size => "method body of " ++ toString size ++ " bytes exceeds 65535"
  | .tableTooLong => "table exceeds 65535 entries"
  | .subroutine => "subroutines cannot carry stack map frames"
  | .localSlotOverflow => "local slot overflow"

end ClassLoom
