import Dalvik.Proofs.Numbers
import Dalvik.Read
import Mathlib.Data.Nat.Bitwise

/-!
# Computing in machine words

`Word.add` and its companions compute in words of some bits. They give nothing where the
result does not fit, where a difference would be below zero, where a shift is as wide as
the word, or where a slice is not one of the bytes. Numbers of variable size are read by
shifts: `Leb128.unsignedWord_eq` and its companions say that these never fail, and that
they give the numbers that the reading steps give.
-/

namespace Dalvik

namespace Word

/-- A number, if a word of some bits holds it. -/
def fit (bits n : Nat) : Option Nat :=
  if n < 2 ^ bits then some n else none

/-- The sum of two numbers. -/
def add (bits a b : Nat) : Option Nat :=
  fit bits (a + b)

/-- The product of two numbers. -/
def mul (bits a b : Nat) : Option Nat :=
  fit bits (a * b)

/-- A number with others added to it one after the other. -/
def addAll (bits : Nat) (a : Nat) (others : List Nat) : Option Nat :=
  others.foldlM (add bits) a

/-- The difference of two numbers. -/
def sub (a b : Nat) : Option Nat :=
  if b ≤ a then some (a - b) else none

/-- A number shifted to the left. Bits that are shifted out of the word are lost. -/
def shiftLeft (bits a count : Nat) : Option Nat :=
  if count < bits then some ((a <<< count) % 2 ^ bits) else none

/-- The bytes from `first` up to `last`. -/
def slice (bytes : Bytes) (first last : Nat) : Option Bytes :=
  if first ≤ last ∧ last ≤ bytes.size then some (bytes.extract first last) else none

variable {bits a b n : Nat}

theorem fit_eq (h : n < 2 ^ bits) : fit bits n = some n :=
  if_pos h

theorem add_eq (h : a + b < 2 ^ bits) : add bits a b = some (a + b) :=
  fit_eq h

theorem addAll_eq {others : List Nat} (h : a + others.sum < 2 ^ bits) : addAll bits a others = some (a + others.sum) := by
  induction others generalizing a with
  | nil => rfl
  | cons b others ih =>
    rw [List.sum_cons, ← Nat.add_assoc] at h ⊢
    rw [addAll, List.foldlM_cons, add_eq (by omega)]
    exact ih h

theorem mul_eq (h : a * b < 2 ^ bits) : mul bits a b = some (a * b) :=
  fit_eq h

theorem sub_eq (h : b ≤ a) : sub a b = some (a - b) :=
  if_pos h

theorem shiftLeft_eq {count : Nat} (h : count < bits) : shiftLeft bits a count = some (a * 2 ^ count % 2 ^ bits) := by
  rw [shiftLeft, if_pos h, Nat.shiftLeft_eq]

theorem slice_eq {bytes : Bytes} {first last : Nat} (h : first ≤ last) (hlast : last ≤ bytes.size) :
    slice bytes first last = some (bytes.extract first last) :=
  if_pos ⟨h, hlast⟩

/-- The remainder around zero of a number below the divisor. -/
theorem bmod_double {n half : Nat} (h : n < 2 * half) :
    Int.bmod n (2 * half) = if n < half then (n : Int) else n - (2 * half : Nat) := by
  rw [Int.bmod, Int.emod_eq_of_lt (Int.natCast_nonneg _) (by omega)]
  split <;> split <;> omega

end Word

/-! ## LEB128 numbers -/

namespace Leb128

/-- Reads the groups of an unsigned number of at most `budget` bytes into a word of 32
bits. The next group is shifted by `shift`. -/
def unsignedWord : (budget shift value : Nat) → List UInt8 → Option (Except Fault (Nat × Nat))
  | 0, _, _, _ => some (.error .tooLong)
  | _ + 1, _, _, [] => some (.error .ended)
  | budget + 1, shift, value, b :: rest => do
    let group ← Word.shiftLeft 32 (b.toNat % 0x80) shift
    let value := (value + group) % 2 ^ 32
    if b.toNat < 0x80 then return .ok (value, 1)
    else return (← unsignedWord budget (shift + 7) value rest).map fun (n, k) => (n, k + 1)

/-- Reads the groups of a signed number of at most `budget` bytes into a word of 32 bits.
The next group is shifted by `shift`; the sign of the last one fills the rest of the
word. -/
def signedWord : (budget shift value : Nat) → List UInt8 → Option (Except Fault (Nat × Nat))
  | 0, _, _, _ => some (.error .tooLong)
  | _ + 1, _, _, [] => some (.error .ended)
  | budget + 1, shift, value, b :: rest => do
    let group ← Word.shiftLeft 32 (b.toNat % 0x80) shift
    let value := value ||| group
    if b.toNat < 0x80 then
      if 0x40 ≤ b.toNat ∧ shift + 7 < 32 then
        return .ok (value ||| (← Word.shiftLeft 32 (2 ^ 32 - 1) (shift + 7)), 1)
      else return .ok (value, 1)
    else return (← signedWord budget (shift + 7) value rest).map fun (n, k) => (n, k + 1)

theorem unsignedWord_eq_groups {budget shift : Nat} (hshift : shift + 7 * budget ≤ 35) (value : Nat)
    (hvalue : value < 2 ^ 32) (bytes : List UInt8) : unsignedWord budget shift value bytes =
      some ((decodeGroups budget bytes).map fun (n, k) => ((value + n * 2 ^ shift) % 2 ^ 32, k)) := by
  induction budget generalizing shift value bytes with
  | zero => rfl
  | succ budget ih =>
    cases bytes with
    | nil => rfl
    | cons b rest =>
      have hlt := b.toNat_lt
      rw [unsignedWord, decodeGroups, Word.shiftLeft_eq (by omega), Option.bind_eq_bind, Option.bind_some,
        Nat.add_mod_mod]
      split
      · rw [Nat.mod_eq_of_lt (a := b.toNat) ‹_›]
        rfl
      · have hgroup : b.toNat % 0x80 = b.toNat - 0x80 := by omega
        dsimp only
        rw [ih (by omega) _ (Nat.mod_lt _ (by decide)), hgroup, Option.bind_eq_bind, Option.bind_some]
        cases decodeGroups budget rest with
        | error fault => rfl
        | ok groups =>
          have hvalues : value + (b.toNat - 0x80) * 2 ^ shift + groups.1 * 2 ^ (shift + 7) =
              value + (b.toNat - 0x80 + 0x80 * groups.1) * 2 ^ shift := by ring
          simp only [Except.map, Nat.mod_add_mod, hvalues]
          rfl

/-- No shift fails when an unsigned number is read, and it is the number that is
decoded. -/
theorem unsignedWord_eq (bytes : List UInt8) : unsignedWord maxLength 0 0 bytes =
    some ((decodeUnsigned bytes).map fun (v, k) => (v.toNat, k)) := by
  rw [unsignedWord_eq_groups (by decide) 0 (by decide), decodeUnsigned]
  cases decodeGroups maxLength bytes with
  | error fault => rfl
  | ok groups => simp [Except.map]

/-- A shifted group joins the groups in front of it. Bits beyond the word are lost. -/
theorem lor_group {value shift : Nat} (hvalue : value < 2 ^ shift) (hshift : shift ≤ 32) (group : Nat) :
    value ||| group * 2 ^ shift % 2 ^ 32 = (value + group * 2 ^ shift) % 2 ^ 32 := by
  have hword : (2 : Nat) ^ 32 = 2 ^ shift * 2 ^ (32 - shift) := by rw [← Nat.pow_add, Nat.add_sub_cancel' hshift]
  have hsum : (value + group * 2 ^ shift) % 2 ^ 32 = value + 2 ^ shift * (group % 2 ^ (32 - shift)) := by
    rw [hword, Nat.mod_mul, Nat.add_mul_mod_self_right, Nat.mod_eq_of_lt hvalue,
      Nat.add_mul_div_right _ _ (Nat.two_pow_pos _), Nat.div_eq_of_lt hvalue, Nat.zero_add]
  rw [hsum, hword, Nat.mul_comm group, Nat.mul_mod_mul_left, Nat.lor_comm, ← Nat.two_pow_add_eq_or_of_lt hvalue,
    Nat.add_comm]

/-- The sign of the last group fills the rest of the word. -/
theorem lor_sign {value shift : Nat} (hvalue : value < 2 ^ (shift + 7)) (hshift : shift + 7 < 32) :
    value ||| (2 ^ 32 - 1) * 2 ^ (shift + 7) % 2 ^ 32 = value + (2 ^ 32 - 2 ^ (shift + 7)) := by
  rw [lor_group hvalue (by omega)]
  have hle : 2 ^ (shift + 7) ≤ 2 ^ 31 := Nat.pow_le_pow_right (by decide) (by omega)
  have hpos := Nat.two_pow_pos (shift + 7)
  rw [Nat.sub_mul, Nat.one_mul]
  have hsplit : value + (2 ^ 32 * 2 ^ (shift + 7) - 2 ^ (shift + 7)) =
      value + (2 ^ 32 - 2 ^ (shift + 7)) + 2 ^ 32 * (2 ^ (shift + 7) - 1) := by
    rw [Nat.mul_sub]
    have := Nat.mul_le_mul_left (2 ^ 32) hpos
    omega
  rw [hsplit, Nat.add_mul_mod_self_left, Nat.mod_eq_of_lt (by omega)]

/-- The remainder around zero that groups of seven bits give. -/
theorem bmod_groups {value shift group : Nat} (hvalue : value < 2 ^ shift) (hgroup : group < 0x80) :
    Int.bmod (value + group * 2 ^ shift : Nat) (2 ^ (shift + 7)) =
      if group < 0x40 then ((value + group * 2 ^ shift : Nat) : Int)
      else (value + group * 2 ^ shift : Nat) - (2 ^ (shift + 7) : Nat) := by
  have hbits : 2 ^ (shift + 7) = 2 * (0x40 * 2 ^ shift) := by rw [Nat.pow_add]; omega
  have hle := Nat.mul_le_mul_right (2 ^ shift) (Nat.le_sub_one_of_lt hgroup)
  rw [hbits, Word.bmod_double (by omega)]
  by_cases hsign : group < 0x40
  · have := Nat.mul_le_mul_right (2 ^ shift) (Nat.le_sub_one_of_lt hsign)
    rw [if_pos hsign, if_pos (by omega)]
  · have := Nat.mul_le_mul_right (2 ^ shift) (Nat.not_lt.mp hsign)
    rw [if_neg hsign, if_neg (by omega)]

/-- The last group gives a signed number, in a word of 32 bits. -/
theorem signed_last {value shift group : Nat} (hvalue : value < 2 ^ shift) (hshift : shift + 7 < 32 ∨ shift = 28)
    (hgroup : group < 0x80) :
    (if 0x40 ≤ group ∧ shift + 7 < 32 then (value + group * 2 ^ shift) % 2 ^ 32 + (2 ^ 32 - 2 ^ (shift + 7))
      else (value + group * 2 ^ shift) % 2 ^ 32) =
    (Int.bmod (value + group * 2 ^ shift : Nat) (2 ^ (shift + 7)) % 2 ^ 32).toNat := by
  have hbits : 2 ^ (shift + 7) = 0x80 * 2 ^ shift := by rw [Nat.pow_add, Nat.mul_comm]
  have hle := Nat.mul_le_mul_right (2 ^ shift) (Nat.le_sub_one_of_lt hgroup)
  rw [bmod_groups hvalue hgroup]
  rcases hshift with hshift | rfl
  · have hpow : 2 ^ (shift + 7) ≤ 2 ^ 31 := Nat.pow_le_pow_right (by decide) (by omega)
    split <;> split <;> omega
  · rw [if_neg (by omega)]
    split <;> omega

theorem signedWord_eq_groups {budget shift : Nat} (hshift : shift + 7 * budget = 35) {value : Nat}
    (hvalue : value < 2 ^ shift) (bytes : List UInt8) : signedWord budget shift value bytes =
      some ((decodeGroups budget bytes).map fun (n, k) =>
        ((Int.bmod (value + n * 2 ^ shift : Nat) (2 ^ (shift + 7 * k)) % 2 ^ 32).toNat, k)) := by
  induction budget generalizing shift value bytes with
  | zero => rfl
  | succ budget ih =>
    cases bytes with
    | nil => rfl
    | cons b rest =>
      have hlt := b.toNat_lt
      have hgroup := Nat.mod_lt b.toNat (show 0x80 > 0 by decide)
      rw [signedWord, decodeGroups, Word.shiftLeft_eq (by omega), Option.bind_eq_bind, Option.bind_some]
      dsimp only
      rw [lor_group hvalue (by omega)]
      by_cases hlast : b.toNat < 0x80
      · rw [if_pos hlast, if_pos hlast]
        rw [Nat.mod_eq_of_lt hlast] at hgroup ⊢
        have hvalues := signed_last hvalue (show shift + 7 < 32 ∨ shift = 28 by omega) hgroup
        simp only [Except.map, Nat.mul_one, ← hvalues]
        split
        · rename_i hsign
          have hword : (value + b.toNat * 2 ^ shift) % 2 ^ 32 < 2 ^ (shift + 7) := by
            have := Nat.mul_le_mul_right (2 ^ shift) (Nat.le_sub_one_of_lt hgroup)
            have hbits : 2 ^ (shift + 7) = 0x80 * 2 ^ shift := by rw [Nat.pow_add, Nat.mul_comm]
            exact Nat.lt_of_le_of_lt (Nat.mod_le _ _) (by omega)
          rw [Word.shiftLeft_eq hsign.2, Option.bind_some, lor_sign hword hsign.2]
          rfl
        · rfl
      · rw [if_neg hlast, if_neg hlast]
        have hfirst : b.toNat % 0x80 = b.toNat - 0x80 := by omega
        cases budget with
        | zero => rfl
        | succ budget =>
          have hnext : value + b.toNat % 0x80 * 2 ^ shift < 2 ^ (shift + 7) := by
            have := Nat.mul_le_mul_right (2 ^ shift) (Nat.le_sub_one_of_lt hgroup)
            have hbits : 2 ^ (shift + 7) = 0x80 * 2 ^ shift := by rw [Nat.pow_add, Nat.mul_comm]
            omega
          have hpow : 2 ^ (shift + 7) ≤ 2 ^ 32 := Nat.pow_le_pow_right (by decide) (by omega)
          rw [Nat.mod_eq_of_lt (Nat.lt_of_lt_of_le hnext hpow), ih (by omega) hnext, hfirst, Option.bind_eq_bind,
            Option.bind_some]
          cases decodeGroups (budget + 1) rest with
          | error fault => rfl
          | ok groups =>
            have hvalues : value + (b.toNat - 0x80) * 2 ^ shift + groups.1 * 2 ^ (shift + 7) =
                value + (b.toNat - 0x80 + 0x80 * groups.1) * 2 ^ shift := by ring
            have hbits : shift + 7 + 7 * groups.2 = shift + 7 * (groups.2 + 1) := by ring
            simp only [Except.map, hvalues, hbits]
            rfl

/-- No shift fails when a signed number is read, and it is the number that is decoded. -/
theorem signedWord_eq (bytes : List UInt8) : signedWord maxLength 0 0 bytes =
    some ((decodeSigned bytes).map fun (v, k) => (v.toUInt32.toNat, k)) := by
  rw [signedWord_eq_groups (by decide) (by decide), decodeSigned]
  cases decodeGroups maxLength bytes with
  | error fault => rfl
  | ok groups =>
    have hword : (Int32.ofInt (Int.bmod groups.1 (2 ^ (7 * groups.2)))).toUInt32.toNat =
        (Int.bmod groups.1 (2 ^ (7 * groups.2)) % 2 ^ 32).toNat := BitVec.toNat_ofInt ..
    simp only [Except.map, Nat.zero_add, Nat.pow_zero, Nat.mul_one, ← hword]
    rfl

end Leb128

/-! ## Numbers of a given size -/

theorem byteBound_eq_two_pow (size : Nat) : byteBound size = 2 ^ (8 * size) :=
  (Nat.pow_mul 2 8 size).symm

namespace Read

/-- The signed number that the low `size` bytes of a word of 64 bits give: they are shifted
to the left end and back, the second time with the sign. -/
def sizedSignedWord (size raw : Nat) : Option Int := do
  let count ← Word.sub 64 (← Word.mul 32 8 size)
  let high ← Word.shiftLeft 64 raw count
  return Int.bmod high (2 ^ 64) / 2 ^ count

/-- The number of `width` bytes whose high `size` bytes are given. -/
def sizedRightWord (size width raw : Nat) : Option Nat := do
  Word.shiftLeft 64 raw (← Word.mul 64 8 (← Word.sub width size))

/-- No shift fails when the sign of a number of `size` bytes is extended. -/
theorem sizedSignedWord_eq {size raw : Nat} (hpos : 0 < size) (hsize : size ≤ 8) (hraw : raw < byteBound size) :
    sizedSignedWord size raw = some (Int.bmod raw (byteBound size)) := by
  obtain ⟨rest, hrest⟩ : ∃ rest, 64 - 8 * size = rest := ⟨_, rfl⟩
  obtain ⟨half, hhalf⟩ : ∃ half, byteBound size = 2 * half := by
    refine ⟨2 ^ (8 * size - 1), ?_⟩
    rw [byteBound_eq_two_pow, ← Nat.pow_succ']
    congr 1
    omega
  have hword : 2 * half * 2 ^ rest = 2 ^ 64 := by
    rw [← hhalf, byteBound_eq_two_pow, ← Nat.pow_add, ← hrest]
    congr 1
    omega
  have hpow := Nat.two_pow_pos rest
  rw [hhalf] at hraw ⊢
  have hlt : raw * 2 ^ rest < 2 ^ 64 := hword ▸ Nat.mul_lt_mul_of_pos_right hraw hpow
  simp only [sizedSignedWord, Word.mul_eq (show 8 * size < 2 ^ 32 by omega), Word.sub_eq (show 8 * size ≤ 64 by omega),
    hrest, Word.shiftLeft_eq (show rest < 64 by omega), Nat.mod_eq_of_lt hlt, Option.bind_eq_bind, Option.bind_some]
  -- Both remainders have one sign, and the shift back divides by what the shift has multiplied by.
  have hhigh : Int.bmod (raw * 2 ^ rest : Nat) (2 ^ 64) = Int.bmod raw (2 * half) * (2 ^ rest : Nat) := by
    rw [← hword, Nat.mul_assoc 2 half, Word.bmod_double (by rw [← Nat.mul_assoc, hword]; exact hlt),
      Word.bmod_double hraw]
    by_cases hsign : raw < half
    · rw [if_pos hsign, if_pos (Nat.mul_lt_mul_of_pos_right hsign hpow), Nat.cast_mul]
    · rw [if_neg hsign, if_neg (Nat.not_lt.mpr (Nat.mul_le_mul_right _ (Nat.not_lt.mp hsign)))]
      push_cast
      ring
  rw [hhigh, Nat.cast_pow, Nat.cast_ofNat, Int.mul_ediv_cancel _ (pow_ne_zero _ two_ne_zero)]
  rfl

/-- No shift fails when a number of `size` bytes is filled up to `width` bytes. -/
theorem sizedRightWord_eq {size width raw : Nat} (hpos : 0 < size) (hsize : size ≤ width) (hwidth : width ≤ 8)
    (hraw : raw < byteBound size) : sizedRightWord size width raw = some (raw * byteBound (width - size)) := by
  rw [byteBound_eq_two_pow] at hraw ⊢
  have hlt : raw * 2 ^ (8 * (width - size)) < 2 ^ 64 := by
    refine Nat.lt_of_lt_of_le (Nat.mul_lt_mul_of_pos_right hraw (Nat.two_pow_pos _)) ?_
    rw [← Nat.pow_add]
    exact Nat.pow_le_pow_right (by decide) (by omega)
  simp only [sizedRightWord, Word.sub_eq hsize, Word.mul_eq (show 8 * (width - size) < 2 ^ 64 by omega),
    Word.shiftLeft_eq (show 8 * (width - size) < 64 by omega), Nat.mod_eq_of_lt hlt, Option.bind_eq_bind,
    Option.bind_some]

end Read

end Dalvik
