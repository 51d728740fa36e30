import Dalvik.Bounds

/-!
# Little-endian numbers

Numbers of a fixed width are written lowest byte first. `decode_encode` and
`encode_decode` say that both directions are inverse to each other for a given
width.
-/

namespace Dalvik.LittleEndian

/-- The low `width` bytes of `n`, lowest first. -/
def encode : (width : Nat) → (n : Nat) → List UInt8
  | 0, _ => []
  | width + 1, n => UInt8.ofNat n :: encode width (n / 0x100)

/-- The number whose bytes are given, lowest first. -/
def decode : List UInt8 → Nat
  | [] => 0
  | b :: rest => b.toNat + 0x100 * decode rest

@[simp] theorem length_encode (width n : Nat) : (encode width n).length = width := by
  induction width generalizing n with
  | zero => rfl
  | succ width ih => simp [encode, ih]

theorem decode_encode (width n : Nat) : decode (encode width n) = n % byteBound width := by
  induction width generalizing n with
  | zero => exact (Nat.mod_one n).symm
  | succ width ih =>
    have low : (UInt8.ofNat n).toNat = n % 0x100 := by simp
    rw [encode, decode, ih, low, byteBound_succ, Nat.mod_mul]

theorem decode_lt (bytes : List UInt8) : decode bytes < byteBound bytes.length := by
  induction bytes with
  | nil => exact Nat.one_pos
  | cons b rest ih =>
    have := b.toNat_lt
    simp only [decode, List.length_cons, byteBound_succ]
    omega

theorem encode_decode (bytes : List UInt8) : encode bytes.length (decode bytes) = bytes := by
  induction bytes with
  | nil => rfl
  | cons b rest ih =>
    have := b.toNat_lt
    have : UInt8.ofNat (b.toNat + 0x100 * decode rest) = b := by
      apply UInt8.toNat_inj.1
      simp only [UInt8.toNat_ofNat']
      omega
    have : (b.toNat + 0x100 * decode rest) / 0x100 = decode rest := by omega
    simp [encode, decode, *]

end Dalvik.LittleEndian
