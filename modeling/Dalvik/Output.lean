import Dalvik.Read
import Dalvik.Write

/-!
# Output with absolute positions

An `Output` is a part of a file that starts at `base` and grows at its end. Its
positions count from the start of the file, so that a part can be written
before those that precede it.
-/

namespace Dalvik

/-- Bytes that stand at `base` in a file. -/
structure Output where
  base : Nat := 0
  bytes : Bytes := #[]

namespace Output

/-- Where the next byte goes. -/
def position (out : Output) : Nat :=
  out.base + out.bytes.size

/-- The number of bytes written. -/
def length (out : Output) : Nat :=
  out.bytes.size

/-- Whether nothing has been written. -/
def isEmpty (out : Output) : Bool :=
  out.bytes.isEmpty

/-- Adds bytes at the end. -/
def append (out : Output) (added : List UInt8) : Output :=
  { out with bytes := out.bytes.appendList added }

/-- The number of bytes from `position` to the next multiple of `alignment`. -/
def padding (position alignment : Nat) : Nat :=
  (alignment - position % alignment) % alignment

/-- Adds zeros until the position is a multiple of `alignment`. -/
def align (out : Output) (alignment : Nat) : Output :=
  out.append (List.replicate (padding out.position alignment) 0)

/-- Replaces the bytes from `start` on, as far as they are there. -/
def overwrite (bytes : Bytes) (start : Nat) : List UInt8 → Bytes
  | [] => bytes
  | b :: rest => overwrite (bytes.setIfInBounds start b) (start + 1) rest

/-- Replaces a `uint` at a position that has been written. -/
def patchUint (out : Output) (position : Nat) (v : UInt32) : Result Output :=
  if position < out.base then .fail (.patchBeforeBase position out.base)
  else if position - out.base + 4 > out.bytes.size then .fail (.patchPastEnd position)
  else .ok { out with bytes := overwrite out.bytes (position - out.base) (Write.uint v) }

end Output

end Dalvik
