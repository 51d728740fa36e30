import Dalvik.Proofs.Leb128
import Dalvik.Proofs.Reading
import Dalvik.Write

/-!
# Numbers are read as they were written

Each step for a basic type reads the written form of a number of that type. The
steps that take sizes and offsets only do so for numbers below `extentBound`.
-/

namespace Dalvik

namespace Write

@[simp] theorem length_ushort (v : UInt16) : (ushort v).length = 2 :=
  LittleEndian.length_encode ..

@[simp] theorem length_uint (v : UInt32) : (uint v).length = 4 :=
  LittleEndian.length_encode ..

end Write

namespace Read

/-! ## Numbers of a fixed width -/

theorem yields_take {form : List UInt8} {count : Nat} (h : form.length = count) (what : String) :
    Yields (take count what) form ⟨form.toArray, by simpa using h⟩ := fun bytes offset hbytes => by
  have hle := hbytes.le_size
  have heq : bytes.extract offset (offset + form.length) = form.toArray := Array.toList_inj.mp hbytes.extract_eq
  subst h
  simp only [take, on_bind, on_read, on_get, dif_pos hle, on_set, on_pure, heq]

theorem yields_bytes {count : Nat} (v : Vector UInt8 count) : Yields (Read.bytes count) v.toList v :=
  yields_take (by simp) "byte array"

theorem yields_skip {form : List UInt8} {count : Nat} (h : form.length = count) : Yields (skip count) form () :=
  (yields_take h "skip").map fun _ => ()

theorem yields_number {form : List UInt8} {count : Nat} (h : form.length = count) (what : String) :
    Yields (number count what) form (LittleEndian.decode form) :=
  (yields_take h what).bind_pure fun v => LittleEndian.decode v.toList

theorem yields_number_encode {count n : Nat} (h : n < byteBound count) (what : String) :
    Yields (number count what) (LittleEndian.encode count n) n := by
  have := yields_number (LittleEndian.length_encode count n) what
  rwa [LittleEndian.decode_encode, Nat.mod_eq_of_lt h] at this

theorem yields_ubyte (v : UInt8) : Yields ubyte (Write.ubyte v) v := by
  have := (yields_number (rfl : [v].length = 1) "u1").bind_pure UInt8.ofNat
  rwa [show UInt8.ofNat (LittleEndian.decode [v]) = v by simp [LittleEndian.decode]] at this

theorem yields_ushort (v : UInt16) : Yields ushort (Write.ushort v) v := by
  have := (yields_number_encode (show v.toNat < byteBound 2 from v.toNat_lt) "u2").bind_pure UInt16.ofNat
  rwa [UInt16.ofNat_toNat] at this

theorem yields_uint (v : UInt32) : Yields uint (Write.uint v) v := by
  have := (yields_number_encode (show v.toNat < byteBound 4 from v.toNat_lt) "u4").bind_pure UInt32.ofNat
  rwa [UInt32.ofNat_toNat] at this

theorem yields_ulong (v : UInt64) : Yields ulong (Write.ulong v) v := by
  have := (yields_number_encode (show v.toNat < byteBound 8 from v.toNat_lt) "u8").bind_pure UInt64.ofNat
  rwa [UInt64.ofNat_toNat] at this

theorem yields_int (v : Int32) : Yields int (Write.int v) v := by
  have := (yields_uint v.toUInt32).bind_pure UInt32.toInt32
  rwa [Int32.toInt32_toUInt32] at this

theorem yields_long (v : Int64) : Yields long (Write.long v) v := by
  have := (yields_ulong v.toUInt64).bind_pure UInt64.toInt64
  rwa [Int64.toInt64_toUInt64] at this

/-- A signed number of two bytes, in two's complement. -/
theorem yields_short_ofInt (n : Int) :
    Yields short (LittleEndian.encode 2 (n % (byteBound 2 : Nat)).toNat) (Int16.ofInt n) := by
  have hlt : (n % (byteBound 2 : Nat)).toNat < byteBound 2 := by
    show (n % 0x10000).toNat < 0x10000
    omega
  have := ((yields_number_encode hlt "u2").bind_pure UInt16.ofNat).bind_pure UInt16.toInt16
  have hvalue : (UInt16.ofNat (n % (byteBound 2 : Nat)).toNat).toInt16 = Int16.ofInt n := by
    apply Int16.toBitVec_inj.mp
    apply BitVec.eq_of_toNat_eq
    show (BitVec.ofNat 16 (n % 0x10000).toNat).toNat = (BitVec.ofInt 16 n).toNat
    rw [BitVec.toNat_ofInt, BitVec.toNat_ofNat]
    omega
  rwa [hvalue] at this

theorem encode_toInt_int (v : Int32) : LittleEndian.encode 4 (v.toInt % (byteBound 4 : Nat)).toNat = Write.int v := by
  have hvalue : (v.toInt % (2 ^ 32 : Nat)).toNat = v.toUInt32.toNat := by
    show (v.toBitVec.toInt % (2 ^ 32 : Nat)).toNat = v.toBitVec.toNat
    rw [BitVec.toInt_eq_toNat_cond]
    split <;> omega
  exact congrArg _ hvalue

theorem encode_toInt_long (v : Int64) : LittleEndian.encode 8 (v.toInt % (byteBound 8 : Nat)).toNat = Write.long v := by
  have hvalue : (v.toInt % (2 ^ 64 : Nat)).toNat = v.toUInt64.toNat := by
    show (v.toBitVec.toInt % (2 ^ 64 : Nat)).toNat = v.toBitVec.toNat
    rw [BitVec.toInt_eq_toNat_cond]
    split <;> omega
  exact congrArg _ hvalue

/-- A size or an offset. -/
theorem yields_smallUint {v : UInt32} (h : v.toNat < extentBound) : Yields smallUint (Write.uint v) v := by
  refine .tell fun start => (yields_uint v).bind_nil ?_
  rw [if_neg (Nat.not_le.mpr h)]
  exact .pure v

theorem requires_smallUint (v : UInt32) : Requires smallUint (Write.uint v) (v.toNat < extentBound) := by
  refine Requires.tell fun start => (yields_uint v).bind_requires_nil fun bytes offset last a _ hon => ?_
  by_contra hlarge
  rw [if_pos (Nat.not_lt.mp hlarge)] at hon
  cases hon

/-! ## LEB128 numbers -/

theorem yields_leb128 {α : Type} {decode : List UInt8 → Except Leb128.Fault (α × Nat)} {form : List UInt8} {a : α}
    (hlength : form.length ≤ Leb128.maxLength) (h : ∀ rest, decode (form ++ rest) = .ok (a, form.length))
    (signed : Bool) (context : Nat → Context) : Yields (leb128 decode signed context) form a :=
  fun bytes offset hbytes => by
    obtain ⟨rest, hrest⟩ := hbytes.extract_of_le (show _ ≤ offset + Leb128.maxLength by omega)
    simp only [leb128, on_bind, on_tell, on_read, hrest, h, on_set, on_pure]

theorem yields_uleb128 (v : UInt32) : Yields uleb128 (Write.uleb128 v) v :=
  yields_leb128 (Leb128.length_encodeUnsigned v) (Leb128.decodeUnsigned_encode v) _ _

theorem yields_uleb128p1 (v : Int32) : Yields uleb128p1 (Write.uleb128p1 v) v :=
  yields_leb128 (Leb128.length_encodeUnsigned _) (Leb128.decodeSuccessor_encode v) _ _

theorem yields_sleb128 (v : Int32) : Yields sleb128 (Write.sleb128 v) v :=
  yields_leb128 (Leb128.length_encodeSigned v) (Leb128.decodeSigned_encode v) _ _

/-- A size or an offset as a LEB128 number. -/
theorem yields_smallUleb128 {v : UInt32} (h : v.toNat < extentBound) : Yields smallUleb128 (Write.uleb128 v) v := by
  refine .tell fun start => (yields_uleb128 v).bind_nil ?_
  rw [if_neg (Nat.not_le.mpr h)]
  exact .pure v

theorem requires_smallUleb128 (v : UInt32) : Requires smallUleb128 (Write.uleb128 v) (v.toNat < extentBound) := by
  refine Requires.tell fun start => (yields_uleb128 v).bind_requires_nil fun bytes offset last a _ hon => ?_
  by_contra hlarge
  rw [if_pos (Nat.not_lt.mp hlarge)] at hon
  cases hon

/-! ## Numbers of a given size -/

theorem yields_sizedUnsigned {size n : Nat} (hpos : 0 < size) (hle : size ≤ 8) (h : n < byteBound size) :
    Yields (sizedUnsigned size) (LittleEndian.encode size n) (UInt64.ofNat n) := by
  unfold sizedUnsigned
  rw [if_neg (by omega)]
  exact (yields_number_encode h "sized value").bind_pure UInt64.ofNat

theorem byteBound_add (m n : Nat) : byteBound (m + n) = byteBound m * byteBound n :=
  Nat.pow_add 0x100 m n

theorem byteBound_pos (n : Nat) : 0 < byteBound n :=
  Nat.pow_pos (by decide)

theorem byteBound_le {size width : Nat} (h : size ≤ width) : byteBound size ≤ byteBound width :=
  Nat.pow_le_pow_right (by decide) h

theorem toNat_ofNat_of_lt {size n : Nat} (hle : size ≤ 8) (h : n < byteBound size) : (UInt64.ofNat n).toNat = n :=
  UInt64.toNat_ofNat_of_lt' (Nat.lt_of_lt_of_le h (byteBound_le hle))

/-- A signed number in two's complement. -/
theorem yields_sizedSigned {size : Nat} (hpos : 0 < size) (hle : size ≤ 8) {i : Int}
    (h : -(byteBound size / 2 : Nat) ≤ i) (h' : i < (byteBound size / 2 : Nat)) :
    Yields (sizedSigned size) (LittleEndian.encode size (i % (byteBound size : Nat)).toNat) (Int64.ofInt i) := by
  have hbound := byteBound_pos size
  have hnonneg := Int.emod_nonneg i (show (byteBound size : Int) ≠ 0 by omega)
  have hlt := Int.emod_lt_of_pos i (show (0 : Int) < byteBound size by omega)
  have hn : (i % (byteBound size : Nat)).toNat < byteBound size := by omega
  have := (yields_sizedUnsigned hpos hle hn).bind_pure fun raw =>
    Int64.ofInt (Int.bmod raw.toNat (byteBound size))
  rwa [toNat_ofNat_of_lt hle hn, Int.toNat_of_nonneg hnonneg, Int.emod_bmod,
    Int.bmod_eq_of_le (by omega) (by omega)] at this

/-- The low bytes of any number, with their sign. -/
theorem yields_sizedSigned_low {size : Nat} (hpos : 0 < size) (hle : size ≤ 8) (v : Int64) :
    Yields (sizedSigned size) (Write.sized v.toUInt64 size) (Int64.ofInt (Int.bmod v.toInt (byteBound size))) := by
  have hn := Nat.mod_lt v.toUInt64.toNat (byteBound_pos size)
  have hform : Write.sized v.toUInt64 size = LittleEndian.encode size (v.toUInt64.toNat % byteBound size) := by
    have hlength := LittleEndian.length_encode size v.toUInt64.toNat
    have := LittleEndian.encode_decode (LittleEndian.encode size v.toUInt64.toNat)
    rw [hlength, LittleEndian.decode_encode] at this
    exact this.symm
  have hvalue : Int.bmod (v.toUInt64.toNat % byteBound size : Nat) (byteBound size) = Int.bmod v.toInt (byteBound size) := by
    have hdvd : (byteBound size : Int) ∣ (2 ^ 64 : Nat) :=
      Int.natCast_dvd_natCast.mpr (pow_dvd_pow 0x100 hle)
    have htoInt : (v.toUInt64.toNat : Int) = v.toInt % (2 ^ 64 : Nat) := by
      show (v.toBitVec.toNat : Int) = v.toBitVec.toInt % (2 ^ 64 : Nat)
      rw [BitVec.toInt_eq_toNat_cond]
      split <;> omega
    rw [Int.natCast_emod, Int.emod_bmod, htoInt, ← Int.emod_bmod, Int.emod_emod_of_dvd _ hdvd, Int.emod_bmod]
  have := (yields_sizedUnsigned hpos hle hn).bind_pure fun raw => Int64.ofInt (Int.bmod raw.toNat (byteBound size))
  rwa [toNat_ofNat_of_lt hle hn, hvalue, ← hform] at this

/-- The high bytes of a number whose low bytes are zero. -/
theorem yields_sizedRight {size width n : Nat} (hpos : 0 < size) (hle : size ≤ width) (hwidth : width ≤ 8)
    (hlow : n % byteBound (width - size) = 0) (h : n < byteBound width) :
    Yields (sizedRight size width) (LittleEndian.encode size (n / byteBound (width - size))) (UInt64.ofNat n) := by
  have hn : n / byteBound (width - size) < byteBound size := by
    have hmul : byteBound width = byteBound size * byteBound (width - size) := by
      rw [← byteBound_add, Nat.add_sub_cancel' hle]
    exact Nat.div_lt_of_lt_mul (by rwa [Nat.mul_comm, ← hmul])
  unfold sizedRight
  rw [if_neg (by omega)]
  have := (yields_sizedUnsigned hpos (by omega) hn).bind_pure fun raw =>
    UInt64.ofNat (raw.toNat * byteBound (width - size))
  rwa [toNat_ofNat_of_lt (by omega) hn, Nat.div_mul_cancel (Nat.dvd_of_mod_eq_zero hlow)] at this

end Read

end Dalvik
