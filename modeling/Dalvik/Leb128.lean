import Dalvik.Bounds

/-!
# LEB128 numbers

Numbers of 32 bits are written in groups of seven bits, lowest first. Every
byte but the last has its high bit set, and at most five bytes belong to one
number. Bits above the 32nd are dropped on reading, and needlessly long forms
are accepted.
-/

namespace Dalvik.Leb128

/-- The most bytes that one number may take. -/
def maxLength : Nat := 5

/-- The shortest form of a number. -/
def encodeNat (n : Nat) : List UInt8 :=
  if n < 0x80 then [UInt8.ofNat n] else UInt8.ofNat (n % 0x80 + 0x80) :: encodeNat (n / 0x80)
termination_by n
decreasing_by omega

/-- The shortest form of a signed number: bit 6 of the last byte is the sign. -/
def encodeInt (i : Int) : List UInt8 :=
  if -0x40 ≤ i ∧ i < 0x40 then [UInt8.ofNat (i % 0x80).toNat]
  else UInt8.ofNat ((i % 0x80).toNat + 0x80) :: encodeInt (i / 0x80)
termination_by i.natAbs
decreasing_by omega

/-- An unsigned number. -/
def encodeUnsigned (v : UInt32) : List UInt8 :=
  encodeNat v.toNat

/-- A signed number. -/
def encodeSigned (v : Int32) : List UInt8 :=
  encodeInt v.toInt

/-- A number that is written as its successor, so that `-1` takes one byte. -/
def encodeSuccessor (v : Int32) : List UInt8 :=
  encodeUnsigned (v + 1).toUInt32

/-- Why bytes are no number. -/
inductive Fault where
  /-- The bytes end inside a number. -/
  | ended
  /-- The last byte that may belong to the number asks for one more. -/
  | tooLong
  deriving DecidableEq, Repr

/-- Reads the groups of a number of at most `budget` bytes. The result is the
number that the groups make up and how many there are. -/
def decodeGroups : (budget : Nat) → List UInt8 → Except Fault (Nat × Nat)
  | 0, _ => .error .tooLong
  | _ + 1, [] => .error .ended
  | budget + 1, b :: rest =>
    if b.toNat < 0x80 then .ok (b.toNat, 1)
    else (decodeGroups budget rest).map fun (n, k) => (b.toNat - 0x80 + 0x80 * n, k + 1)

/-- Reads an unsigned number and the count of its bytes. -/
def decodeUnsigned (bytes : List UInt8) : Except Fault (UInt32 × Nat) :=
  (decodeGroups maxLength bytes).map fun (n, k) => (UInt32.ofNat n, k)

/-- Reads a signed number and the count of its bytes: the groups are read as
two's complement of seven bits each. -/
def decodeSigned (bytes : List UInt8) : Except Fault (Int32 × Nat) :=
  (decodeGroups maxLength bytes).map fun (n, k) => (Int32.ofInt (Int.bmod n (bitBound (7 * k))), k)

/-- Reads a number that was written as its successor. -/
def decodeSuccessor (bytes : List UInt8) : Except Fault (Int32 × Nat) :=
  (decodeUnsigned bytes).map fun (v, k) => (v.toInt32 - 1, k)

end Dalvik.Leb128
