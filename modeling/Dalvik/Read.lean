import Dalvik.Error
import Dalvik.Leb128
import Dalvik.LittleEndian
import Dalvik.Text.Mutf8

/-!
# Reading steps

A reading step looks at a fixed sequence of bytes from an offset on. It either
yields a value or fails, and in both cases it leaves an offset behind, so that
reading can go on after a failure. A step that finds too few bytes does not
move; one that rejects the value it has decoded stays behind that value.

The steps for the basic types bear the names that the file format gives to
them.
-/

namespace Dalvik

/-- The bytes of a file or of a part of one. -/
abbrev Bytes := Array UInt8

/-- A step that reads from fixed bytes at an offset. -/
abbrev Read := ReaderT Bytes (ExceptT Error (StateM Nat))

/-- Sizes and offsets are below this bound. -/
def extentBound : Nat := 0x80000000

namespace Read

/-- Runs a step on `bytes` from `offset` on, with the offset that it leaves. -/
def on (step : Read α) (bytes : Bytes) (offset : Nat) : Result α × Nat :=
  step bytes offset

/-- Fails with a cause. -/
def fail (cause : Cause) : Read α :=
  throw ⟨cause, []⟩

/-- Adds a context to a failure of a step. -/
def within (step : Read α) (context : Context) : Read α :=
  fun bytes offset =>
    match step bytes offset with
    | (.ok a, next) => (.ok a, next)
    | (.error e, next) => (.error (e.within context), next)

/-- The current offset. -/
def tell : Read Nat :=
  get

/-- The current offset as it is kept, in 32 bits. -/
def mark : Read UInt32 := return UInt32.ofNat (← tell)

/-- The number of bytes from the current offset to the end. -/
def remaining : Read Nat := do
  return (← read).size - (← get)

/-- Moves to an offset, which may be the end of the bytes. -/
def seek (offset : Nat) : Read Unit := do
  let size := (← read).size
  if offset > size then fail (.seekPastEnd offset size) else set offset

/-- Runs a step and moves back to where it started. -/
def peek (step : Read α) : Read α :=
  fun bytes offset => ((step bytes offset).1, offset)

/-- The next `count` bytes. -/
def take (count : Nat) (what : String) : Read (Vector UInt8 count) := do
  let bytes ← read
  let start ← get
  if h : start + count ≤ bytes.size then
    set (start + count)
    return ⟨bytes.extract start (start + count), by simp; omega⟩
  else fail (.endOfStream what start)

/-- The next `count` bytes as a number, lowest byte first. -/
def number (count : Nat) (what : String) : Read Nat := do
  return LittleEndian.decode (← take count what).toList

/-- An unsigned number of one byte. -/
def ubyte : Read UInt8 := return UInt8.ofNat (← number 1 "u1")

/-- A signed number of one byte. -/
def byte : Read Int8 := return (← ubyte).toInt8

/-- An unsigned number of two bytes. -/
def ushort : Read UInt16 := return UInt16.ofNat (← number 2 "u2")

/-- A signed number of two bytes. -/
def short : Read Int16 := return (← ushort).toInt16

/-- An unsigned number of four bytes. -/
def uint : Read UInt32 := return UInt32.ofNat (← number 4 "u4")

/-- A signed number of four bytes. -/
def int : Read Int32 := return (← uint).toInt32

/-- An unsigned number of eight bytes. -/
def ulong : Read UInt64 := return UInt64.ofNat (← number 8 "u8")

/-- A signed number of eight bytes. -/
def long : Read Int64 := return (← ulong).toInt64

/-- A `uint` that is a size or an offset. -/
def smallUint : Read UInt32 := do
  let start ← tell
  let value ← uint
  if value.toNat ≥ extentBound then fail (.wordOutOfRange start) else return value

/-- The next `count` bytes as they are. -/
def bytes (count : Nat) : Read (Vector UInt8 count) :=
  take count "byte array"

/-- Moves over `count` bytes. -/
def skip (count : Nat) : Read Unit := do
  discard (take count "skip")

/-- A LEB128 number in one of its forms; `context` names the form at an
offset. -/
def leb128 (decode : List UInt8 → Except Leb128.Fault (α × Nat)) (signed : Bool) (context : Nat → Context) :
    Read α := do
  let start ← tell
  match decode ((← read).extract start (start + Leb128.maxLength)).toList with
  | .ok (value, size) =>
    set (start + size)
    return value
  | .error .ended => throw ⟨.lebEnded signed, [context start]⟩
  | .error .tooLong => throw ⟨.lebTooLong signed Leb128.maxLength, [context start]⟩

/-- An unsigned LEB128 number of up to 32 bits. -/
def uleb128 : Read UInt32 :=
  leb128 Leb128.decodeUnsigned false .uleb128

/-- An unsigned LEB128 number that was written as its successor. -/
def uleb128p1 : Read Int32 :=
  leb128 Leb128.decodeSuccessor false .uleb128p1

/-- A signed LEB128 number. -/
def sleb128 : Read Int32 :=
  leb128 Leb128.decodeSigned true .sleb128

/-- An unsigned LEB128 number that is a size or an offset. -/
def smallUleb128 : Read UInt32 := do
  let start ← tell
  let value ← uleb128
  if value.toNat ≥ extentBound then fail (.lebOutOfRange start) else return value

/-- A number of `size` bytes, filled up with zeros to 64 bits. -/
def sizedUnsigned (size : Nat) : Read UInt64 := do
  if size = 0 ∨ size > 8 then fail (.valueSize size (← tell))
  else return UInt64.ofNat (← number size "sized value")

/-- A number of `size` bytes, filled up with its sign to 64 bits. -/
def sizedSigned (size : Nat) : Read Int64 := do
  let raw ← sizedUnsigned size
  return Int64.ofInt (Int.bmod raw.toNat (byteBound size))

/-- The high `size` bytes of a number of `width` bytes, whose low bytes are
zero. -/
def sizedRight (size width : Nat) : Read UInt64 := do
  if size > width then fail (.valueTooWide size width)
  else
    let raw ← sizedUnsigned size
    return UInt64.ofNat (raw.toNat * byteBound (width - size))

/-- The offset of the first zero byte at or after `start`. -/
def zeroFrom? (bytes : Bytes) (start : Nat) : Option Nat :=
  if h : start < bytes.size then
    if bytes[start] = 0 then some start else zeroFrom? bytes (start + 1)
  else none
termination_by bytes.size - start

/-- String data: the number of UTF-16 units, then Modified UTF-8 up to a zero
byte. Unpaired surrogates are read as U+FFFD. -/
def stringData : Read String := do
  let start ← tell
  let declared := (← smallUleb128).toNat
  let first ← tell
  let bytes ← read
  match zeroFrom? bytes first with
  | none => fail (.stringUnterminated start)
  | some last =>
    match Mutf8.decode? (bytes.extract first last).toList with
    | none => fail (.stringMalformed start)
    | some text =>
      let actual := Utf16.length text
      if actual ≠ declared then fail (.stringLength start declared actual)
      else
        set (last + 1)
        return text

/-- The values of `count` runs of a step; run number `index` has the context
`context index` around it. -/
def listFrom (context : Nat → Context) (step : Read α) : (index count : Nat) → Read (List α)
  | _, 0 => return []
  | index, count + 1 => do
    let first ← step.within (context index)
    return first :: (← listFrom context step (index + 1) count)

/-- The values of `count` runs of a step. -/
def times (step : Read α) : (count : Nat) → Read (List α)
  | 0 => return []
  | count + 1 => do
    let first ← step
    return first :: (← times step count)

/-- Runs a step `count` times for its moves alone. -/
def repeated (step : Read Unit) : (count : Nat) → Read Unit
  | 0 => return ()
  | count + 1 => do
    step
    repeated step count

/-- The value of a step at an offset, which it moves to first. -/
def at? (step : Read α) (bytes : Bytes) (offset : Nat) : Result α :=
  ((do seek offset; step : Read α).on bytes 0).1

end Read

end Dalvik
