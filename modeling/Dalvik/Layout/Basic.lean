import Dalvik.Read
import Dalvik.Write

/-!
# Fixed layouts

A type has a layout when its values are written in one way that can be read
back.
-/

namespace Dalvik

/-- A written form together with its reader. -/
class Layout (α : Type) where
  /-- Reads one value. -/
  read : Read α
  /-- The bytes of one value. -/
  write : α → List UInt8

namespace Layout

/-- Reads `count` values. Since every value takes at least one byte, a count
beyond the remaining bytes is rejected at once. -/
def readItems (α : Type) [Layout α] (count : Nat) : Read (List α) := do
  let remaining ← Read.remaining
  if count > remaining then Read.fail (.countTooLarge count remaining)
  else Read.listFrom .item (read : Read α) 0 count

/-- The bytes of a list of values. -/
def writeItems {α : Type} [Layout α] (items : List α) : List UInt8 :=
  items.flatMap write

end Layout

end Dalvik
