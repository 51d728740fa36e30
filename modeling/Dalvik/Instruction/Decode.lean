import Dalvik.Instruction.Basic
import Dalvik.Read

/-!
# Instructions from code

The low byte of the first code unit is the value of the opcode, except for the
data of switches and arrays, whose whole first code unit is. What a format
leaves unused is not looked at.
-/

namespace Dalvik

/-- An instruction with its address in code units. -/
structure Addressed (ρ : Type) where
  address : UInt32
  instruction : Instruction ρ
  deriving DecidableEq, Repr, Hashable

namespace Operands

/-- The first `count` registers of a list: four of them in one code unit, the
fifth in another place. -/
def listRegisters (count fifth four : Nat) : List UInt16 :=
  ([four % 0x10, four / 0x10 % 0x10, four / 0x100 % 0x10, four / 0x1000, fifth].take count).map UInt16.ofNat

/-- A number of eight bits with a sign. -/
def signedByte (n : Nat) : Int32 :=
  Int32.ofInt (Int.bmod n 0x100)

/-- Reads two bytes as a number with a sign. -/
def readShort : Read Int32 := do
  return Int32.ofInt (← Read.short).toInt

/-- Reads the index of a reference in 16 bits. -/
def readIndex : Read UInt32 := do
  return UInt32.ofNat (← Read.ushort).toNat

/-- Reads the elements of an array up to a whole code unit. -/
def readArray (start : Nat) : Read (Operands UInt32) := do
  let width ← Read.ushort
  let count := (← Read.uint).toNat
  if width ∉ [1, 2, 4, 8] then Read.fail (.payloadWidth width.toNat start)
  let total := count * width.toNat
  if total > (← Read.remaining) then Read.fail (.payloadPastEnd start)
  let elements ← Read.times (Read.sizedSigned width.toNat) count
  if total % 2 ≠ 0 then Read.skip 1
  return .arrayData width elements

/-- Reads the operands of an opcode. The first code unit has been read from
`start`, and `high` is its high byte. -/
def read (op : Opcode) (start high : Nat) : Read (Operands UInt32) := do
  let byte := UInt16.ofNat high
  let low := UInt16.ofNat (high % 0x10)
  let top := UInt16.ofNat (high / 0x10)
  match op.format with
  | .f10t => return .f10t (signedByte high)
  | .f10x => return .f10x
  | .f11n => return .f11n low (Int32.ofInt (Int.bmod high 0x100 / 0x10))
  | .f11x => return .f11x byte
  | .f12x => return .f12x low top
  | .f20bc =>
    match ReferenceKind.ofVerificationBits (high / 0x40) with
    | .error e => throw e
    | .ok kind => return .f20bc (UInt8.ofNat (high % 0x40)) kind (← readIndex)
  | .f20t => return .f20t (← readShort)
  | .f21c => return .f21c byte (← readIndex)
  | .f21ih => return .f21ih byte (Int32.ofInt ((← Read.short).toInt * 0x10000))
  | .f21lh => return .f21lh byte (Int64.ofInt ((← Read.short).toInt * 0x1000000000000))
  | .f21s => return .f21s byte (← readShort)
  | .f21t => return .f21t byte (← readShort)
  | .f22b =>
    let unit := (← Read.ushort).toNat
    return .f22b byte (UInt16.ofNat (unit % 0x100)) (signedByte (unit / 0x100))
  | .f22c => return .f22c low top (← readIndex)
  | .f22cs => return .f22cs low top (← Read.ushort)
  | .f22s => return .f22s low top (← readShort)
  | .f22t => return .f22t low top (← readShort)
  | .f22x => return .f22x byte (← Read.ushort)
  | .f23x =>
    let unit := (← Read.ushort).toNat
    return .f23x byte (UInt16.ofNat (unit % 0x100)) (UInt16.ofNat (unit / 0x100))
  | .f30t => return .f30t (← Read.int)
  | .f31c => return .f31c byte (← Read.uint)
  | .f31i => return .f31i byte (← Read.int)
  | .f31t => return .f31t byte (← Read.int)
  | .f32x =>
    let a ← Read.ushort
    return .f32x a (← Read.ushort)
  | .f35c =>
    let (index, registers) ← readList
    return .f35c registers (UInt32.ofNat index.toNat)
  | .f35mi =>
    let (index, registers) ← readList
    return .f35mi registers index
  | .f35ms =>
    let (index, registers) ← readList
    return .f35ms registers index
  | .f45cc =>
    let (index, registers) ← readList
    return .f45cc registers (UInt32.ofNat index.toNat) (← readIndex)
  | .f3rc =>
    let reference ← readIndex
    return .f3rc (← Read.ushort) byte reference
  | .f3rmi =>
    let index ← Read.ushort
    return .f3rmi (← Read.ushort) byte index
  | .f3rms =>
    let index ← Read.ushort
    return .f3rms (← Read.ushort) byte index
  | .f4rcc =>
    let reference ← readIndex
    let first ← Read.ushort
    return .f4rcc first byte reference (← readIndex)
  | .f51l => return .f51l byte (← Read.long)
  | .packedSwitch =>
    let count := (← Read.ushort).toNat
    let firstKey ← Read.int
    return .packedSwitch firstKey (← Read.times Read.int count)
  | .sparseSwitch =>
    let count := (← Read.ushort).toNat
    let keys ← Read.times Read.int count
    return .sparseSwitch (keys.zip (← Read.times Read.int count))
  | .arrayData => readArray start
where
  /-- Reads an index and the registers of a list, whose number and fifth entry
  are in the first code unit. -/
  readList : Read (UInt16 × List UInt16) := do
    if high / 0x10 > 5 then Read.fail (.registerCount (high / 0x10) op.name start)
    let index ← Read.ushort
    let four := (← Read.ushort).toNat
    return (index, listRegisters (high / 0x10) (high % 0x10) four)

end Operands

namespace Instruction

/-- The value of the opcode that a first code unit stands for. -/
def opcodeValue (unit : Nat) : Nat :=
  if unit % 0x100 = 0 ∧ 1 ≤ unit / 0x100 ∧ unit / 0x100 ≤ 3 then unit else unit % 0x100

/-- Reads one instruction. -/
def decode (opcodes : Opcodes) : Read (Instruction UInt32) := do
  let start ← Read.tell
  let unit := (← Read.ushort).toNat
  match opcodes.opcode? (opcodeValue unit) with
  | none => Read.fail (.opcodeUnknown (opcodeValue unit) start opcodes.api)
  | some op => return ⟨op, ← Operands.read op start (unit / 0x100)⟩

/-- Reads one instruction together with its address. -/
def decodeAddressed (opcodes : Opcodes) : Read (Addressed UInt32) := do
  let address := (← Read.tell) / 2
  let instruction ← (decode opcodes).within (.instruction address)
  return ⟨UInt32.ofNat address, instruction⟩

/-- Reads instructions up to the end of the code. Each of them takes bytes,
so `fuel` need not exceed the number of bytes. -/
def decodeUpTo (opcodes : Opcodes) : (fuel : Nat) → Read (List (Addressed UInt32))
  | 0 => return []
  | fuel + 1 => do
    if (← Read.remaining) = 0 then return []
    else
      let first ← decodeAddressed opcodes
      return first :: (← decodeUpTo opcodes fuel)

/-- The instructions of a whole piece of code. -/
def decodeAll (opcodes : Opcodes) (code : Bytes) : Result (List (Addressed UInt32)) :=
  ((decodeUpTo opcodes code.size).on code 0).1

end Instruction

end Dalvik
