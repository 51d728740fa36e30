import Mathlib.Algebra.BigOperators.Fin
import Dalvik.Proofs.Words

/-!
# LEB128 numbers are exact and take the fewest bytes

A number ends with the first of its bytes whose high bit is clear (`endIndex?`), and the
groups up to there make up its value (`groupSum`, `signedSum`): this is what is read from
any bytes (`decodeUnsigned_eq`, `decodeSigned_eq`). No bytes are read as a number in fewer
bytes than it is written in. `exact_shortest` says all of this.
-/

namespace Dalvik.Leb128

/-- Whether a byte is the last of a number. -/
def isLast (b : UInt8) : Bool :=
  b.toNat < 0x80

/-- The index of the byte that ends the number in front of some bytes, if one of the first few does. -/
def endIndex? (bytes : List UInt8) : Option Nat :=
  (bytes.take maxLength).findIdx? isLast

/-- The number that groups of seven bits make up, the lowest first. -/
def groupSum (groups : List UInt8) : Nat :=
  ∑ i : Fin groups.length, groups[i].toNat % 0x80 * 2 ^ (7 * i.val)

/-- The number that groups of seven bits make up in two's complement: bit 6 of the last one
is the sign. -/
def signedSum (groups : List UInt8) : Int :=
  if groups.getLast?.any (·.toNat.testBit 6) then groupSum groups - (2 ^ (7 * groups.length) : Nat)
  else groupSum groups

/-- Why bytes are no number: they are too few, or there are enough of them and none is the last. -/
def faultOf (bytes : List UInt8) : Fault :=
  if bytes.length < maxLength then .ended else .tooLong

/-! ## Sums of groups -/

theorem groupSum_cons (b : UInt8) (groups : List UInt8) :
    groupSum (b :: groups) = b.toNat % 0x80 + 0x80 * groupSum groups := by
  have hshift (i : Fin groups.length) : groups[i].toNat % 0x80 * 2 ^ (7 * (i.val + 1)) =
      0x80 * (groups[i].toNat % 0x80 * 2 ^ (7 * i.val)) := by
    rw [Nat.mul_succ, Nat.pow_add]
    ring
  have hsum := Fin.sum_univ_succ fun i : Fin (groups.length + 1) => (b :: groups)[i].toNat % 0x80 * 2 ^ (7 * i.val)
  rw [groupSum, groupSum, Finset.mul_sum]
  refine hsum.trans (congrArg₂ _ ?_ (Finset.sum_congr rfl fun i _ => hshift i))
  simp

theorem groupSum_singleton (b : UInt8) : groupSum [b] = b.toNat % 0x80 := by
  rw [groupSum_cons, show groupSum [] = 0 from rfl, Nat.mul_zero, Nat.add_zero]

theorem groupSum_lt (groups : List UInt8) : groupSum groups < 2 ^ (7 * groups.length) := by
  induction groups with
  | nil => decide
  | cons b groups ih =>
    rw [groupSum_cons, List.length_cons, Nat.mul_succ, Nat.pow_add]
    omega

theorem groupSum_concat (groups : List UInt8) (last : UInt8) :
    groupSum (groups ++ [last]) = groupSum groups + last.toNat % 0x80 * 2 ^ (7 * groups.length) := by
  induction groups with
  | nil => simp [groupSum]
  | cons b groups ih =>
    rw [List.cons_append, groupSum_cons, ih, groupSum_cons, List.length_cons, Nat.mul_succ, Nat.pow_add]
    ring

/-- The sign of the last group is that of the remainder around zero. -/
theorem signedSum_eq_bmod {groups : List UInt8} (h : groups ≠ []) :
    signedSum groups = Int.bmod (groupSum groups) (bitBound (7 * groups.length)) := by
  obtain ⟨head, last, rfl⟩ := List.eq_nil_or_concat' groups |>.resolve_left h
  have hgroup := Nat.mod_lt last.toNat (show 0x80 > 0 by decide)
  have hbit : last.toNat.testBit 6 = true ↔ ¬ last.toNat % 0x80 < 0x40 := by
    rw [Nat.testBit_eq_decide_div_mod_eq, decide_eq_true_iff]
    omega
  have hlength : 7 * (head ++ [last]).length = 7 * head.length + 7 := by
    rw [List.length_append, List.length_singleton, Nat.mul_succ]
  rw [signedSum, List.getLast?_concat, Option.any_some, hlength, groupSum_concat, bitBound,
    Nat.pow_eq, bmod_groups (groupSum_lt head) hgroup]
  by_cases hsign : last.toNat % 0x80 < 0x40
  · rw [if_neg (fun h => hbit.mp h hsign), if_pos hsign]
  · rw [if_pos (hbit.mpr hsign), if_neg hsign]

/-! ## What is read -/

/-- The groups up to the first that ends the number are read. -/
theorem decodeGroups_eq (budget : Nat) (bytes : List UInt8) : decodeGroups budget bytes =
    match (bytes.take budget).findIdx? isLast with
    | some i => .ok (groupSum (bytes.take (i + 1)), i + 1)
    | none => .error (if bytes.length < budget then .ended else .tooLong) := by
  induction budget generalizing bytes with
  | zero => rfl
  | succ budget ih =>
    cases bytes with
    | nil => rfl
    | cons b rest =>
      rw [decodeGroups, List.take_succ_cons, List.findIdx?_cons]
      by_cases hlast : b.toNat < 0x80
      · have hend : isLast b = true := decide_eq_true hlast
        rw [if_pos hlast, if_pos hend]
        simp [groupSum_singleton, Nat.mod_eq_of_lt hlast]
      · have hgoes : isLast b = false := decide_eq_false hlast
        have hlt := b.toNat_lt
        have hgroup : b.toNat - 0x80 = b.toNat % 0x80 := by omega
        rw [if_neg hlast, hgoes, if_neg Bool.false_ne_true, ih, hgroup]
        cases (rest.take budget).findIdx? isLast with
        | none => simp [Except.map]
        | some i => simp [Except.map, groupSum_cons]

/-- What is read as an unsigned number from any bytes. -/
theorem decodeUnsigned_eq (bytes : List UInt8) : decodeUnsigned bytes =
    match endIndex? bytes with
    | some i => .ok (UInt32.ofNat (groupSum (bytes.take (i + 1))), i + 1)
    | none => .error (faultOf bytes) := by
  rw [decodeUnsigned, decodeGroups_eq, endIndex?]
  cases (bytes.take maxLength).findIdx? isLast <;> rfl

/-- What is read as a signed number from any bytes. -/
theorem decodeSigned_eq (bytes : List UInt8) : decodeSigned bytes =
    match endIndex? bytes with
    | some i => .ok (Int32.ofInt (signedSum (bytes.take (i + 1))), i + 1)
    | none => .error (faultOf bytes) := by
  rw [decodeSigned, decodeGroups_eq, endIndex?]
  cases hend : (bytes.take maxLength).findIdx? isLast with
  | none => rfl
  | some i =>
    obtain ⟨hlt, -⟩ := List.findIdx?_eq_some_iff_findIdx_eq.mp hend
    rw [List.length_take] at hlt
    have hlength : (bytes.take (i + 1)).length = i + 1 := by
      rw [List.length_take]
      omega
    have hne : bytes.take (i + 1) ≠ [] := List.ne_nil_of_length_eq_add_one hlength
    simp only [Except.map, signedSum_eq_bmod hne, hlength]

/-! ## The fewest bytes -/

/-- Groups that are read make up a number of as many bits. -/
theorem decodeGroups_lt {budget n k : Nat} {bytes : List UInt8} (h : decodeGroups budget bytes = .ok (n, k)) :
    ∃ j, k = j + 1 ∧ n < bitBound (7 * (j + 1)) := by
  rw [decodeGroups_eq] at h
  split at h
  · rename_i i hend
    cases h
    have hlength : (bytes.take (i + 1)).length ≤ i + 1 := List.length_take_le ..
    refine ⟨i, rfl, Nat.lt_of_lt_of_le (groupSum_lt _) (Nat.pow_le_pow_right (by decide) ?_)⟩
    exact Nat.mul_le_mul_left 7 hlength
  · cases h

/-- No bytes are read as an unsigned number in fewer bytes than it is written in. -/
theorem length_encodeUnsigned_le {v : UInt32} {k : Nat} {bytes : List UInt8} (h : decodeUnsigned bytes = .ok (v, k)) :
    (encodeUnsigned v).length ≤ k := by
  rw [decodeUnsigned] at h
  cases hgroups : decodeGroups maxLength bytes with
  | error fault =>
    rw [hgroups] at h
    cases h
  | ok groups =>
    obtain ⟨n, k'⟩ := groups
    rw [hgroups] at h
    cases h
    obtain ⟨j, rfl, hlt⟩ := decodeGroups_lt hgroups
    refine encodeNat_length_le (Nat.lt_of_le_of_lt ?_ hlt)
    rw [UInt32.toNat_ofNat']
    exact Nat.mod_le ..

/-- No bytes are read as a signed number in fewer bytes than it is written in. -/
theorem length_encodeSigned_le {v : Int32} {k : Nat} {bytes : List UInt8} (h : decodeSigned bytes = .ok (v, k)) :
    (encodeSigned v).length ≤ k := by
  rw [decodeSigned] at h
  cases hgroups : decodeGroups maxLength bytes with
  | error fault =>
    rw [hgroups] at h
    cases h
  | ok groups =>
    obtain ⟨n, k'⟩ := groups
    rw [hgroups] at h
    cases h
    obtain ⟨j, rfl, -⟩ := decodeGroups_lt hgroups
    have hpos := bitBound_pos (7 * (j + 1))
    have hlow := Int.le_bmod (x := n) hpos
    have hhigh := Int.bmod_lt (x := n) hpos
    by_cases hword : j < 4
    · -- the groups do not fill the word
      have hsmall : bitBound (7 * (j + 1)) ≤ bitBound 28 := Nat.pow_le_pow_right (by decide) (by omega)
      have heven := bitBound_group_even (Nat.succ_pos j)
      have hvalue : (Int32.ofInt (Int.bmod n (bitBound (7 * (j + 1))))).toInt =
          Int.bmod n (bitBound (7 * (j + 1))) := by
        have : bitBound 28 = 268435456 := rfl
        exact Int32.toInt_ofInt_of_le (by omega) (by omega)
      rw [encodeSigned, hvalue]
      exact encodeInt_length_le (by omega) (by omega)
    · exact Nat.le_trans (length_encodeSigned _) (by unfold maxLength; omega)

/-- No bytes are read as the successor of a number in fewer bytes than it is written in. -/
theorem length_encodeSuccessor_le {v : Int32} {k : Nat} {bytes : List UInt8} (h : decodeSuccessor bytes = .ok (v, k)) :
    (encodeSuccessor v).length ≤ k := by
  rw [decodeSuccessor] at h
  cases hnumber : decodeUnsigned bytes with
  | error fault =>
    rw [hnumber] at h
    cases h
  | ok number =>
    obtain ⟨u, k'⟩ := number
    rw [hnumber] at h
    cases h
    rw [encodeSuccessor, Int32.sub_add_cancel, UInt32.toUInt32_toInt32]
    exact length_encodeUnsigned_le hnumber

/-! ## All forms -/

/-- A form of numbers is exact and short: what is written is read as it was, whatever follows
it, and no bytes are read as a number in fewer bytes than it is written in. -/
structure ExactShortest {α : Type} (encode : α → List UInt8) (decode : List UInt8 → Except Fault (α × Nat)) :
    Prop where
  decode_encode : ∀ v rest, decode (encode v ++ rest) = .ok (v, (encode v).length)
  length_encode_le : ∀ bytes v k, decode bytes = .ok (v, k) → (encode v).length ≤ k

/-- Every form of numbers is exact and short. Of any bytes, a number is read just if one of the
first five ends it, and then it is what the groups up to there make up, in 32 bits. -/
theorem exact_shortest :
    ExactShortest encodeUnsigned decodeUnsigned ∧ ExactShortest encodeSigned decodeSigned ∧
      ExactShortest encodeSuccessor decodeSuccessor ∧ ∀ bytes,
      match endIndex? bytes with
      | some i => decodeUnsigned bytes = .ok (UInt32.ofNat (groupSum (bytes.take (i + 1))), i + 1) ∧
          decodeSigned bytes = .ok (Int32.ofInt (signedSum (bytes.take (i + 1))), i + 1)
      | none => decodeUnsigned bytes = .error (faultOf bytes) ∧ decodeSigned bytes = .error (faultOf bytes) := by
  refine ⟨⟨decodeUnsigned_encode, fun _ _ _ => length_encodeUnsigned_le⟩,
    ⟨decodeSigned_encode, fun _ _ _ => length_encodeSigned_le⟩,
    ⟨decodeSuccessor_encode, fun _ _ _ => length_encodeSuccessor_le⟩, fun bytes => ?_⟩
  rw [decodeUnsigned_eq, decodeSigned_eq]
  cases endIndex? bytes with
  | none => exact ⟨rfl, rfl⟩
  | some i => exact ⟨rfl, rfl⟩

/-- The bits of the last group that do not fit are dropped. -/
example : decodeUnsigned [0xff, 0xff, 0xff, 0xff, 0x7f, 0x01] = .ok (0xffffffff, 5) := by rfl

end Dalvik.Leb128
