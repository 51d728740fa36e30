import Dalvik.Reference
import Dalvik.Read

/-!
# Values from bytes

The head byte of a value says what follows. Sizes beyond what a kind of value
can hold are rejected. Reading takes at least one byte for every level of
nesting, so that the number of remaining bytes bounds the depth.

A value can also be passed by without a look at what it refers to. Sizes that no
value of its kind may have are not noticed then.
-/

namespace Dalvik

namespace Read

/-- The outcome of a look-up as a step that moves nowhere. -/
def ofResult {α : Type} (r : Result α) : Read α :=
  liftM (m := Except Error) r

end Read

namespace Value

/-- Reads an index of `size` bytes and looks up what is behind it. -/
def readIndexed {α : Type} (find : UInt32 → Result α) (size : Nat) : Read α := do
  let index ← Read.sizedUnsigned size
  Read.ofResult (find (UInt32.ofNat index.toNat))

/-- Rejects a value of more than `most` bytes. -/
def checkSize (tag argument start most : Nat) : Read Unit :=
  if argument + 1 > most then Read.fail (.encodedSize (argument + 1) tag start) else return ()

/-- Rejects a head byte with a size for a value that has none. -/
def checkNoArgument (tag argument start : Nat) : Read Unit :=
  if argument ≠ 0 then Read.fail (.encodedArgument argument tag start) else return ()

/-- Reads a list of values with its number in front, by a step for one of
them. -/
def readArray (one : Read Value) : Read (List Value) := do
  let count := (← Read.smallUleb128).toNat
  Read.listFrom .arrayElement one 0 count

/-- Reads a named element, by a step for its value. -/
def readElement (r : ValueResolver) (one : Read Value) : Read (String × Value) := do
  let name ← Read.ofResult (r.string (← Read.smallUleb128))
  return (name, ← one)

/-- Reads a list of elements with its number in front, by a step for one
value. -/
def readElements (r : ValueResolver) (one : Read Value) : Read Elements := do
  let count := (← Read.smallUleb128).toNat
  Read.times (readElement r one) count

/-- Reads the body of an annotation, by a step for one value. -/
def readBody (r : ValueResolver) (one : Read Value) : Read (String × Elements) := do
  let t ← Read.ofResult (r.type (← Read.smallUleb128))
  return (t, ← readElements r one)

/-- Reads what follows a head byte at `start`, by a step for a value inside
it. -/
def readContent (r : ValueResolver) (one : Read Value) (tag argument start : Nat) : Read Value := do
  let size := argument + 1
  match tag with
  | 0x00 =>
    checkSize tag argument start 1
    return byte (← Read.byte)
  | 0x02 =>
    checkSize tag argument start 2
    return short (Int16.ofInt (← Read.sizedSigned size).toInt)
  | 0x03 =>
    checkSize tag argument start 2
    return char (UInt16.ofNat (← Read.sizedUnsigned size).toNat)
  | 0x04 =>
    checkSize tag argument start 4
    return int (Int32.ofInt (← Read.sizedSigned size).toInt)
  | 0x06 =>
    checkSize tag argument start 8
    return long (← Read.sizedSigned size)
  | 0x10 =>
    checkSize tag argument start 4
    return float (UInt32.ofNat (← Read.sizedRight size 4).toNat)
  | 0x11 =>
    checkSize tag argument start 8
    return double (← Read.sizedRight size 8)
  | 0x15 =>
    checkSize tag argument start 4
    return proto (← readIndexed r.proto size)
  | 0x16 =>
    checkSize tag argument start 4
    return handle (← readIndexed r.handle size)
  | 0x17 =>
    checkSize tag argument start 4
    return string (← readIndexed r.string size)
  | 0x18 =>
    checkSize tag argument start 4
    return type (← readIndexed r.type size)
  | 0x19 =>
    checkSize tag argument start 4
    return field (← readIndexed r.field size)
  | 0x1a =>
    checkSize tag argument start 4
    return method (← readIndexed r.method size)
  | 0x1b =>
    checkSize tag argument start 4
    return enum (← readIndexed r.field size)
  | 0x1c =>
    checkNoArgument tag argument start
    return array (← readArray one)
  | 0x1d =>
    checkNoArgument tag argument start
    let (t, elements) ← readBody r one
    return nested t elements
  | 0x1e =>
    checkNoArgument tag argument start
    return null
  | 0x1f =>
    if argument > 1 then Read.fail (.encodedBoolean argument start)
    return boolean (argument ≠ 0)
  | _ => Read.fail (.encodedTag tag start)

/-- Reads a value with at most `depth` levels of nesting inside it. -/
def decodeWithin (r : ValueResolver) : (depth : Nat) → Read Value
  | 0 => do Read.fail (.endOfStream "u1" (← Read.tell))
  | depth + 1 => do
    let start ← Read.tell
    let head := (← Read.ubyte).toNat
    readContent r (decodeWithin r depth) (head % 0x20) (head / 0x20) start

/-- Reads a value. -/
def decode (r : ValueResolver) : Read Value := do
  decodeWithin r ((← Read.remaining) + 1)

/-- Reads a list of values with its number in front. -/
def decodeArray (r : ValueResolver) : Read (List Value) := do
  readArray (decodeWithin r ((← Read.remaining) + 1))

/-- Reads a list of elements with its number in front. -/
def decodeElements (r : ValueResolver) : Read Elements := do
  readElements r (decodeWithin r ((← Read.remaining) + 1))

/-- Reads the body of an annotation. -/
def decodeBody (r : ValueResolver) : Read (String × Elements) := do
  readBody r (decodeWithin r ((← Read.remaining) + 1))

/-! ## Stepping over values -/

/-- Steps over what follows a head byte, by a step over a value inside it. -/
def skipContent (one : Read Unit) (tag argument : Nat) : Read Unit :=
  if tag = 0x1c then do
    let count := (← Read.smallUleb128).toNat
    Read.repeated one count
  else if tag = 0x1d then do
    discard Read.uleb128
    let count := (← Read.smallUleb128).toNat
    let element : Read Unit := do
      discard Read.uleb128
      one
    Read.repeated element count
  else if tag = 0x1e ∨ tag = 0x1f then return ()
  else if tag ∈ [0x00, 0x02, 0x03, 0x04, 0x06, 0x10, 0x11, 0x15, 0x16, 0x17, 0x18, 0x19, 0x1a, 0x1b] then
    Read.skip (argument + 1)
  else Read.fail (.skippedTag tag)

/-- Steps over a value with at most `depth` levels of nesting inside it. -/
def skipWithin : (depth : Nat) → Read Unit
  | 0 => do Read.fail (.endOfStream "u1" (← Read.tell))
  | depth + 1 => do
    let head := (← Read.ubyte).toNat
    skipContent (skipWithin depth) (head % 0x20) (head / 0x20)

/-- Steps over a value. -/
def skip : Read Unit := do
  skipWithin ((← Read.remaining) + 1)

end Value

end Dalvik
