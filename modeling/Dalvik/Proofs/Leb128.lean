import Mathlib.Tactic.Ring
import Dalvik.Leb128

/-!
# LEB128 numbers are read as they were written

The groups of a number are read back whatever follows them
(`decodeUnsigned_encode`, `decodeSigned_encode`, `decodeSuccessor_encode`), and
a number of 32 bits takes at most `maxLength` bytes.
-/

namespace Dalvik.Leb128

theorem bitBound_add (m n : Nat) : bitBound (m + n) = bitBound m * bitBound n :=
  Nat.pow_add 2 m n

theorem bitBound_pos (n : Nat) : 0 < bitBound n :=
  Nat.two_pow_pos n

theorem bitBound_group (k : Nat) : bitBound (7 * (k + 1)) = 0x80 * bitBound (7 * k) := by
  rw [show 7 * (k + 1) = 7 + 7 * k by ring, bitBound_add]
  rfl

theorem bitBound_group_even {k : Nat} (h : 0 < k) : 2 ∣ bitBound (7 * k) := by
  obtain ⟨k, rfl⟩ := Nat.exists_eq_add_of_lt h
  rw [Nat.zero_add, bitBound_group]
  omega

/-! ## Unsigned numbers -/

theorem encodeNat_pos (n : Nat) : 0 < (encodeNat n).length := by
  rw [encodeNat]
  split <;> simp

theorem encodeNat_length_le {n k : Nat} (h : n < bitBound (7 * (k + 1))) : (encodeNat n).length ≤ k + 1 := by
  induction k generalizing n with
  | zero =>
    rw [encodeNat, if_pos (by simpa [bitBound] using h)]
    simp
  | succ k ih =>
    rw [encodeNat]
    split
    · simp
    · rw [bitBound_group] at h
      have := ih (n := n / 0x80) (by omega)
      simpa using this

theorem decodeGroups_encodeNat {n budget : Nat} (h : (encodeNat n).length ≤ budget) (rest : List UInt8) :
    decodeGroups budget (encodeNat n ++ rest) = .ok (n, (encodeNat n).length) := by
  induction budget generalizing n with
  | zero => exact absurd (encodeNat_pos n) (by omega)
  | succ budget ih =>
    rw [encodeNat] at h ⊢
    split at h
    · rename_i hn
      rw [if_pos hn]
      have hbyte : (UInt8.ofNat n).toNat = n := by simp; omega
      simp [decodeGroups, hbyte, hn]
    · rename_i hn
      rw [if_neg hn]
      have hbyte : (UInt8.ofNat (n % 0x80 + 0x80)).toNat = n % 0x80 + 0x80 := by simp; omega
      have hrest := ih (n := n / 0x80) (by simpa using h)
      simp only [List.cons_append, decodeGroups, hbyte, hrest]
      rw [if_neg (by omega)]
      simp only [Except.map, List.length_cons]
      congr 2
      omega

theorem length_encodeUnsigned (v : UInt32) : (encodeUnsigned v).length ≤ maxLength :=
  encodeNat_length_le (k := 4) (Nat.lt_trans v.toNat_lt (by decide))

theorem encodeUnsigned_ne_nil (v : UInt32) : encodeUnsigned v ≠ [] :=
  List.length_pos_iff.mp (encodeNat_pos ..)

/-- An unsigned number is read back, whatever follows it. -/
theorem decodeUnsigned_encode (v : UInt32) (rest : List UInt8) :
    decodeUnsigned (encodeUnsigned v ++ rest) = .ok (v, (encodeUnsigned v).length) := by
  unfold decodeUnsigned
  rw [encodeUnsigned, decodeGroups_encodeNat (length_encodeUnsigned v)]
  simp [Except.map]

/-- A number that is written as its successor is read back. -/
theorem decodeSuccessor_encode (v : Int32) (rest : List UInt8) :
    decodeSuccessor (encodeSuccessor v ++ rest) = .ok (v, (encodeSuccessor v).length) := by
  unfold decodeSuccessor encodeSuccessor
  rw [decodeUnsigned_encode]
  simp [Except.map, Int32.add_sub_cancel]

/-! ## Signed numbers -/

theorem emod_group (i : Int) {k : Nat} :
    i % (bitBound (7 * (k + 1)) : Nat) = i % 0x80 + 0x80 * (i / 0x80 % (bitBound (7 * k) : Nat)) := by
  have hpos := bitBound_pos (7 * k)
  rw [bitBound_group]
  generalize bitBound (7 * k) = B at *
  have hnonneg := Int.emod_nonneg (i / 0x80) (show (B : Int) ≠ 0 by omega)
  have hlt := Int.emod_lt_of_pos (i / 0x80) (show (0 : Int) < B by omega)
  have heq : i = (i % 0x80 + 0x80 * (i / 0x80 % B)) + (0x80 * B : Nat) * (i / 0x80 / B) := by
    have := Int.emod_add_mul_ediv (i / 0x80) B
    rw [Int.natCast_mul, Int.mul_assoc]
    omega
  rw [heq, Int.add_mul_emod_self_left, ← heq]
  exact Int.emod_eq_of_lt (by omega) (by omega)

theorem encodeInt_pos (i : Int) : 0 < (encodeInt i).length := by
  rw [encodeInt]
  split <;> simp

/-- The sign bit of the last group is that of the number. -/
theorem encodeInt_fits (i : Int) : -(bitBound (7 * (encodeInt i).length) : Int) ≤ 2 * i ∧
    2 * i < bitBound (7 * (encodeInt i).length) := by
  induction i using encodeInt.induct with
  | case1 i hi =>
    rw [encodeInt, if_pos hi]
    simp only [List.length_singleton]
    have : bitBound (7 * 1) = 0x80 := rfl
    omega
  | case2 i hi ih =>
    have heven := bitBound_group_even (encodeInt_pos (i / 0x80))
    rw [encodeInt, if_neg hi, List.length_cons, bitBound_group]
    omega

theorem encodeInt_length_le {i : Int} {k : Nat} (h : -(bitBound (7 * (k + 1)) : Int) ≤ 2 * i)
    (h' : 2 * i < bitBound (7 * (k + 1))) : (encodeInt i).length ≤ k + 1 := by
  induction k generalizing i with
  | zero =>
    have : bitBound (7 * (0 + 1)) = 0x80 := rfl
    rw [encodeInt, if_pos (by omega)]
    simp
  | succ k ih =>
    rw [encodeInt]
    split
    · simp
    · have heven : 2 ∣ bitBound (7 * (k + 1)) := bitBound_group_even (Nat.succ_pos k)
      rw [bitBound_group] at h h'
      have := ih (i := i / 0x80) (by omega) (by omega)
      simpa using this

/-- The groups of a signed number are its two's complement. -/
theorem decodeGroups_encodeInt {i : Int} {budget : Nat} (h : (encodeInt i).length ≤ budget) (rest : List UInt8) :
    ∃ n : Nat, decodeGroups budget (encodeInt i ++ rest) = .ok (n, (encodeInt i).length) ∧
      (n : Int) = i % (bitBound (7 * (encodeInt i).length) : Nat) := by
  induction budget generalizing i with
  | zero => exact absurd (encodeInt_pos i) (by omega)
  | succ budget ih =>
    rw [encodeInt] at h ⊢
    split at h
    · rename_i hi
      rw [if_pos hi]
      have hbyte : (UInt8.ofNat (i % 0x80).toNat).toNat = (i % 0x80).toNat := by simp; omega
      refine ⟨(i % 0x80).toNat, ?_, ?_⟩
      · simp only [List.cons_append, decodeGroups, hbyte]
        rw [if_pos (by omega)]
        rfl
      · rw [List.length_singleton, show bitBound (7 * 1) = 0x80 from rfl]
        omega
    · rename_i hi
      rw [if_neg hi]
      have hbyte : (UInt8.ofNat ((i % 0x80).toNat + 0x80)).toNat = (i % 0x80).toNat + 0x80 := by simp; omega
      obtain ⟨n, hn, heq⟩ := ih (i := i / 0x80) (by simpa using h)
      refine ⟨(i % 0x80).toNat + 0x80 * n, ?_, ?_⟩
      · simp only [List.cons_append, decodeGroups, hbyte, hn]
        rw [if_neg (by omega)]
        simp [Except.map]
      · rw [List.length_cons, emod_group, ← heq]
        omega

theorem length_encodeSigned (v : Int32) : (encodeSigned v).length ≤ maxLength := by
  have hle := v.le_toInt
  have hlt := v.toInt_lt
  have : bitBound (7 * (4 + 1)) = 34359738368 := rfl
  exact encodeInt_length_le (k := 4) (by omega) (by omega)

/-- A signed number is read back, whatever follows it. -/
theorem decodeSigned_encode (v : Int32) (rest : List UInt8) :
    decodeSigned (encodeSigned v ++ rest) = .ok (v, (encodeSigned v).length) := by
  obtain ⟨n, hn, heq⟩ := decodeGroups_encodeInt (length_encodeSigned v) rest
  obtain ⟨hle, hlt⟩ := encodeInt_fits v.toInt
  unfold decodeSigned
  rw [encodeSigned, hn]
  simp only [Except.map, heq, Int.emod_bmod]
  rw [Int.bmod_eq_of_le (by omega) (by omega), Int32.ofInt_toInt]

/-! ## How many bytes a number takes -/

/-- The groups of a number are among the bytes, and there are only a few. -/
theorem decodeGroups_count {budget n k : Nat} {bytes : List UInt8} (h : decodeGroups budget bytes = .ok (n, k)) :
    k ≤ budget ∧ k ≤ bytes.length := by
  induction budget generalizing bytes n k with
  | zero => cases h
  | succ budget ih =>
    cases bytes with
    | nil => cases h
    | cons b rest =>
      rw [decodeGroups] at h
      split at h
      · cases h
        exact ⟨Nat.le_add_left 1 budget, Nat.le_add_left 1 rest.length⟩
      · cases hmore : decodeGroups budget rest with
        | error fault =>
          rw [hmore] at h
          cases h
        | ok more =>
          rw [hmore] at h
          cases h
          obtain ⟨hbudget, hlength⟩ := ih hmore
          exact ⟨Nat.succ_le_succ hbudget, Nat.succ_le_succ hlength⟩

theorem decodeUnsigned_count {v : UInt32} {k : Nat} {bytes : List UInt8} (h : decodeUnsigned bytes = .ok (v, k)) :
    k ≤ maxLength ∧ k ≤ bytes.length := by
  rw [decodeUnsigned] at h
  cases hgroups : decodeGroups maxLength bytes <;> rw [hgroups] at h <;> cases h
  exact decodeGroups_count hgroups

theorem decodeSigned_count {v : Int32} {k : Nat} {bytes : List UInt8} (h : decodeSigned bytes = .ok (v, k)) :
    k ≤ maxLength ∧ k ≤ bytes.length := by
  rw [decodeSigned] at h
  cases hgroups : decodeGroups maxLength bytes <;> rw [hgroups] at h <;> cases h
  exact decodeGroups_count hgroups

theorem decodeSuccessor_count {v : Int32} {k : Nat} {bytes : List UInt8} (h : decodeSuccessor bytes = .ok (v, k)) :
    k ≤ maxLength ∧ k ≤ bytes.length := by
  rw [decodeSuccessor] at h
  cases hnumber : decodeUnsigned bytes <;> rw [hnumber] at h <;> cases h
  exact decodeUnsigned_count hnumber

end Dalvik.Leb128
