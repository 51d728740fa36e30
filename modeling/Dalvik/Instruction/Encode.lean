import Dalvik.Instruction.Check
import Dalvik.Write

/-!
# Code from instructions

An instruction is written as a sequence of pieces. Only a piece that holds the
index of a reference in 16 bits can fail, once the operands fit; the pieces
before it are written nevertheless.
-/

namespace Dalvik

/-- A part of the written form of an instruction. -/
inductive Piece where
  /-- Bytes as they are. -/
  | plain (bytes : List UInt8)
  /-- The index of a reference, in 16 bits. -/
  | index (reference : UInt32)
  deriving DecidableEq, Repr

namespace Piece

/-- The bytes of a piece. -/
def write : Piece → Result (List UInt8)
  | plain bytes => .ok bytes
  | index reference =>
    if reference.toNat > 0xffff then .fail (.referenceTooWide reference.toNat 0xffff)
    else .ok (LittleEndian.encode 2 reference.toNat)

/-- The bytes of pieces up to the first that fails, and whether one does. -/
def writeAll : List Piece → List UInt8 × Result Unit
  | [] => ([], .ok ())
  | piece :: rest =>
    match piece.write with
    | .error e => ([], .error e)
    | .ok bytes =>
      let (more, outcome) := writeAll rest
      (bytes ++ more, outcome)

/-- One code unit. -/
def unit (n : Nat) : Piece :=
  plain (LittleEndian.encode 2 n)

/-- A code unit from a low and a high byte. -/
def bytes (low high : Nat) : Piece :=
  unit (low + 0x100 * high)

/-- A code unit from a low byte and two numbers of four bits. -/
def nibbles (low a b : Nat) : Piece :=
  unit (low + 0x100 * a + 0x1000 * b)

/-- A number of `count` bytes, in two's complement. -/
def number (count : Nat) (n : Int) : Piece :=
  plain (LittleEndian.encode count (n % (byteBound count : Nat)).toNat)

end Piece

namespace Operands

/-- The register at a place of a list, or zero beyond its end. -/
def registerAt (registers : List UInt16) (place : Nat) : Nat :=
  (registers[place]?.getD 0).toNat

/-- The first code unit of an instruction with a list of registers: their
number and the fifth of them. -/
def listHead (value : Nat) (registers : List UInt16) : Piece :=
  .nibbles value (registerAt registers 4) registers.length

/-- The first four registers of a list. -/
def listUnit (registers : List UInt16) : Piece :=
  .unit (registerAt registers 0 + 0x10 * registerAt registers 1 + 0x100 * registerAt registers 2 +
    0x1000 * registerAt registers 3)

/-- The elements of an array, filled up to whole code units. -/
def arrayBytes (width : Nat) (elements : List Int64) : List UInt8 :=
  elements.flatMap (fun e => Write.sized e.toUInt64 width) ++
    List.replicate (width * elements.length % 2) 0

/-- The pieces of an instruction whose opcode has the given value. -/
def pieces (value : Nat) : Operands UInt32 → List Piece
  | f10t offset => [.bytes value (offset.toInt % 0x100).toNat]
  | f10x => [.unit value]
  | f11n a literal => [.nibbles value a.toNat (literal.toInt % 0x10).toNat]
  | f11x a => [.bytes value a.toNat]
  | f12x a b => [.nibbles value a.toNat b.toNat]
  | f20bc error kind reference =>
    [.bytes value (error.toNat + 0x40 * (kind.verificationBits.toOption.getD 0)), .index reference]
  | f20t offset => [.unit value, .number 2 offset.toInt]
  | f21c a reference => [.bytes value a.toNat, .index reference]
  | f21ih a literal => [.bytes value a.toNat, .number 2 (literal.toInt / 0x10000)]
  | f21lh a literal => [.bytes value a.toNat, .number 2 (literal.toInt / 0x1000000000000)]
  | f21s a literal => [.bytes value a.toNat, .number 2 literal.toInt]
  | f21t a offset => [.bytes value a.toNat, .number 2 offset.toInt]
  | f22b a b literal => [.bytes value a.toNat, .bytes b.toNat (literal.toInt % 0x100).toNat]
  | f22c a b reference => [.nibbles value a.toNat b.toNat, .index reference]
  | f22cs a b fieldOffset => [.nibbles value a.toNat b.toNat, .unit fieldOffset.toNat]
  | f22s a b literal => [.nibbles value a.toNat b.toNat, .number 2 literal.toInt]
  | f22t a b offset => [.nibbles value a.toNat b.toNat, .number 2 offset.toInt]
  | f22x a b => [.bytes value a.toNat, .unit b.toNat]
  | f23x a b c => [.bytes value a.toNat, .bytes b.toNat c.toNat]
  | f30t offset => [.unit value, .number 4 offset.toInt]
  | f31c a reference => [.bytes value a.toNat, .plain (Write.uint reference)]
  | f31i a literal => [.bytes value a.toNat, .number 4 literal.toInt]
  | f31t a offset => [.bytes value a.toNat, .number 4 offset.toInt]
  | f32x a b => [.unit value, .unit a.toNat, .unit b.toNat]
  | f35c registers reference => [listHead value registers, .index reference, listUnit registers]
  | f35mi registers index => [listHead value registers, .unit index.toNat, listUnit registers]
  | f35ms registers index => [listHead value registers, .unit index.toNat, listUnit registers]
  | f3rc start count reference => [.bytes value count.toNat, .index reference, .unit start.toNat]
  | f3rmi start count index => [.bytes value count.toNat, .unit index.toNat, .unit start.toNat]
  | f3rms start count index => [.bytes value count.toNat, .unit index.toNat, .unit start.toNat]
  | f45cc registers reference proto =>
    [listHead value registers, .index reference, listUnit registers, .index proto]
  | f4rcc start count reference proto =>
    [.bytes value count.toNat, .index reference, .unit start.toNat, .index proto]
  | f51l a literal => [.bytes value a.toNat, .number 8 literal.toInt]
  | packedSwitch firstKey targets =>
    [.unit value, .unit targets.length, .number 4 firstKey.toInt,
      .plain (targets.flatMap Write.int)]
  | sparseSwitch cases =>
    [.unit value, .unit cases.length, .plain (cases.flatMap fun c => Write.int c.1),
      .plain (cases.flatMap fun c => Write.int c.2)]
  | arrayData width elements =>
    [.unit value, .unit width.toNat, .number 4 elements.length,
      .plain (arrayBytes width.toNat elements)]

end Operands

namespace Instruction

/-- The bytes of an instruction for an API level. They are complete only if
the outcome is no failure. -/
def encode (opcodes : Opcodes) (i : Instruction UInt32) : List UInt8 × Result Unit :=
  match i.check with
  | .error e => ([], .error e)
  | .ok () =>
    match opcodes.value? i.opcode with
    | none => ([], .fail (.opcodeMissing i.opcode.name opcodes.api))
    | some value => Piece.writeAll (i.operands.pieces value)

/-- The bytes of instructions that follow each other from an address on, and
the address after them. The data of a switch or of an array has to stand at an
even address. -/
def encodeFrom (opcodes : Opcodes) (address : Nat) : List (Instruction UInt32) → List UInt8 × Result Nat
  | [] => ([], .ok address)
  | i :: rest =>
    if i.format.isPayload ∧ address % 2 ≠ 0 then
      ([], .fail (.payloadUnaligned i.opcode.name address))
    else
      match i.encode opcodes with
      | (bytes, .error e) => (bytes, .error (e.within (.instruction address)))
      | (bytes, .ok ()) =>
        let (more, outcome) := encodeFrom opcodes (address + i.codeUnits) rest
        (bytes ++ more, outcome)

/-- The code of a method, and its number of code units. -/
def encodeAll (opcodes : Opcodes) (code : List (Instruction UInt32)) : List UInt8 × Result Nat :=
  encodeFrom opcodes 0 code

end Instruction

end Dalvik
