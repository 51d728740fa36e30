/-!
# Bounds of numbers

How many numbers there are of a given width, in bits and in bytes.
-/

namespace Dalvik

/-- The number of different values of `bits` bits. -/
def bitBound (bits : Nat) : Nat :=
  Nat.pow 2 bits

/-- The number of different values of `width` bytes. -/
def byteBound (width : Nat) : Nat :=
  Nat.pow 0x100 width

theorem byteBound_succ (width : Nat) : byteBound (width + 1) = 0x100 * byteBound width :=
  Nat.mul_comm _ _

end Dalvik
