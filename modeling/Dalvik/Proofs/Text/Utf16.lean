import Mathlib.Logic.Function.Basic
import Dalvik.Proofs.Order.Sorting
import Dalvik.Text.Utf16

/-!
# UTF-16 code units and back

`decodeLossy_encode`: reading the units of a string gives the string. So no two
strings have the same units (`encode_injective`), and the order of strings by
their units is a total order that tells all strings apart.

Each surrogate outside a pair is replaced by U+FFFD when units are read as characters, and all
other units are kept (`encode_decodeLossy`). Where there is none of them, nothing is replaced
(`decodeLossy_of_decode?`).
-/

namespace Dalvik.Utf16

theorem isSurrogate_iff (u : UInt16) : (isHigh u || isLow u) = true ↔ 0xd800 ≤ u.toNat ∧ u.toNat < 0xe000 := by
  simp only [isHigh, isLow, Bool.or_eq_true, Bool.and_eq_true, decide_eq_true_eq, UInt16.le_iff_toNat_le,
    UInt16.lt_iff_toNat_lt]
  have h1 : (0xd800 : UInt16).toNat = 0xd800 := rfl
  have h2 : (0xdc00 : UInt16).toNat = 0xdc00 := rfl
  have h3 : (0xe000 : UInt16).toNat = 0xe000 := rfl
  omega

/-- A unit outside the surrogates is read as it is, whatever follows. -/
theorem decodeLossy_cons {u : UInt16} (h : (isHigh u || isLow u) = false) (rest : List UInt16) :
    decodeLossy (u :: rest) = Char.ofNat u.toNat :: decodeLossy rest := by
  obtain ⟨hh, hl⟩ := Bool.or_eq_false_iff.mp h
  cases rest with
  | nil => simp [decodeLossy, hh, hl]
  | cons v rest => simp [decodeLossy, hh, hl]

/-- A surrogate pair is read as its character, whatever follows. -/
theorem decodeLossy_pair {u v : UInt16} (hu : isHigh u = true) (hv : isLow v = true) (rest : List UInt16) :
    decodeLossy (u :: v :: rest) = ofPair u v :: decodeLossy rest := by
  simp [decodeLossy, hu, hv]

theorem toNat_highSurrogate {n : Nat} (h : n < 0x110000) (hn : 0x10000 ≤ n) :
    (highSurrogate n).toNat = 0xd800 + (n - 0x10000) / 0x400 := by
  simp only [highSurrogate, UInt16.toNat_ofNat']
  omega

theorem toNat_lowSurrogate (n : Nat) : (lowSurrogate n).toNat = 0xdc00 + (n - 0x10000) % 0x400 := by
  simp only [lowSurrogate, UInt16.toNat_ofNat']
  omega

theorem isHigh_highSurrogate {n : Nat} (h : n < 0x110000) (hn : 0x10000 ≤ n) : isHigh (highSurrogate n) = true := by
  have h1 : (0xd800 : UInt16).toNat = 0xd800 := rfl
  have h2 : (0xdc00 : UInt16).toNat = 0xdc00 := rfl
  simp only [isHigh, Bool.and_eq_true, decide_eq_true_eq, UInt16.le_iff_toNat_le, UInt16.lt_iff_toNat_lt,
    toNat_highSurrogate h hn]
  omega

theorem isLow_lowSurrogate (n : Nat) : isLow (lowSurrogate n) = true := by
  have h2 : (0xdc00 : UInt16).toNat = 0xdc00 := rfl
  have h3 : (0xe000 : UInt16).toNat = 0xe000 := rfl
  simp only [isLow, Bool.and_eq_true, decide_eq_true_eq, UInt16.le_iff_toNat_le, UInt16.lt_iff_toNat_lt,
    toNat_lowSurrogate]
  omega

theorem toNat_lt (c : Char) : c.toNat < 0x110000 := by
  have := c.valid
  simp only [UInt32.isValidChar, Nat.isValidChar] at this
  simp only [Char.toNat]
  omega

/-- The units of a character are read as that character, whatever follows. -/
theorem decodeLossy_ofChar (c : Char) (rest : List UInt16) :
    decodeLossy (ofChar c ++ rest) = c :: decodeLossy rest := by
  have hlt := toNat_lt c
  unfold ofChar
  split
  · rename_i h
    have hn : (UInt16.ofNat c.toNat).toNat = c.toNat := by
      simp only [UInt16.toNat_ofNat']
      omega
    have hs : (isHigh (UInt16.ofNat c.toNat) || isLow (UInt16.ofNat c.toNat)) = false := by
      have := c.valid
      simp only [UInt32.isValidChar, Nat.isValidChar] at this
      rw [Bool.eq_false_iff, ne_eq, isSurrogate_iff, hn]
      simp only [Char.toNat] at h ⊢
      omega
    rw [List.singleton_append, decodeLossy_cons hs, hn, Char.ofNat_toNat]
  · rename_i h
    have hn : 0x10000 ≤ c.toNat := by omega
    rw [List.cons_append, List.singleton_append, decodeLossy_pair (isHigh_highSurrogate hlt hn)
      (isLow_lowSurrogate _), ofPair, toNat_highSurrogate hlt hn, toNat_lowSurrogate]
    rw [show 0x10000 + (0xd800 + (c.toNat - 0x10000) / 0x400 - 0xd800) * 0x400 +
      (0xdc00 + (c.toNat - 0x10000) % 0x400 - 0xdc00) = c.toNat by omega, Char.ofNat_toNat]

/-- Reading the units of characters gives the characters. -/
theorem decodeLossy_flatMap (cs : List Char) : decodeLossy (cs.flatMap ofChar) = cs := by
  induction cs with
  | nil => rfl
  | cons c cs ih => rw [List.flatMap_cons, decodeLossy_ofChar, ih]

/-- Reading the units of a string gives the string. -/
@[simp] theorem decodeLossy_encode (s : String) : String.ofList (decodeLossy (encode s)) = s := by
  rw [encode, decodeLossy_flatMap, String.ofList_toList]

theorem encode_injective : Function.Injective encode :=
  Function.LeftInverse.injective (g := fun units => String.ofList (decodeLossy units)) decodeLossy_encode

theorem length_ofChar (c : Char) : (ofChar c).length = if c.toNat < 0x10000 then 1 else 2 := by
  unfold ofChar
  split <;> rfl

/-- The length of a string is the number of its units. -/
theorem length_eq (s : String) : length s = (encode s).length := by
  have h : ∀ (cs : List Char) (n : Nat), cs.foldl (fun n c => if c.toNat < 0x10000 then n + 1 else n + 2) n =
      n + (cs.flatMap ofChar).length := by
    intro cs
    induction cs with
    | nil => simp
    | cons c cs ih =>
      intro n
      rw [List.foldl_cons, ih, List.flatMap_cons, List.length_append, length_ofChar]
      split <;> omega
  exact (h s.toList 0).trans (Nat.zero_add _)

instance : Std.TransCmp compare :=
  transCmp_on encode (List.compareLex Ord.compare)

instance : Std.LawfulEqCmp compare :=
  lawfulEqCmp_on encode_injective (List.compareLex Ord.compare)

/-! ## Surrogates outside a pair -/

/-- Whether the unit at an index is a surrogate outside a pair: a first half with no second half behind
it, or a second half with no first half in front of it. -/
def isUnpaired (units : List UInt16) (i : Nat) : Bool :=
  units[i]?.any isHigh && !units[i + 1]?.any isLow ||
    units[i]?.any isLow && !(0 < i && units[i - 1]?.any isHigh)

/-- Units with U+FFFD in place of each surrogate outside a pair. -/
def mended (units : List UInt16) : List UInt16 :=
  units.mapIdx fun i u => if isUnpaired units i then 0xfffd else u

theorem length_mended (units : List UInt16) : (mended units).length = units.length :=
  List.length_mapIdx

theorem isHigh_eq_false {u : UInt16} (h : isLow u = true) : isHigh u = false := by
  simp only [isLow, isHigh, Bool.and_eq_true, decide_eq_true_eq, Bool.and_eq_false_iff,
    decide_eq_false_iff_not] at h ⊢
  exact .inr (UInt16.not_lt.mpr h.1)

/-- A unit in front of others changes nothing for them, unless it makes a pair with the first of them. -/
theorem isUnpaired_cons {u : UInt16} {rest : List UInt16} (h : (isHigh u && rest.head?.any isLow) = false) (i : Nat) :
    isUnpaired (u :: rest) (i + 1) = isUnpaired rest i := by
  cases i with
  | zero =>
    rw [List.head?_eq_getElem?] at h
    unfold isUnpaired
    simp only [List.getElem?_cons_succ, Nat.zero_add, Nat.sub_self, List.getElem?_cons_zero, Option.any_some,
      Nat.lt_irrefl, decide_false, Bool.false_and, Bool.not_false, Bool.and_true, Nat.zero_lt_one, decide_true,
      Bool.true_and]
    revert h
    cases isHigh u <;> cases rest[0]?.any isLow <;> simp
  | succ i => simp [isUnpaired]

theorem mended_cons {u : UInt16} {rest : List UInt16} (h : (isHigh u && rest.head?.any isLow) = false) :
    mended (u :: rest) = (if isHigh u || isLow u then 0xfffd else u) :: mended rest := by
  have hfirst : isUnpaired (u :: rest) 0 = (isHigh u || isLow u) := by
    rw [List.head?_eq_getElem?] at h
    revert h
    simp only [isUnpaired, List.getElem?_cons_zero, Option.any_some, List.getElem?_cons_succ, Nat.lt_irrefl,
      decide_false, Bool.false_and, Bool.not_false, Bool.and_true]
    cases isHigh u <;> cases rest[0]?.any isLow <;> simp
  simp only [mended, List.mapIdx_cons, hfirst, isUnpaired_cons h]

theorem mended_pair {u v : UInt16} (hu : isHigh u = true) (hv : isLow v = true) (rest : List UInt16) :
    mended (u :: v :: rest) = u :: v :: mended rest := by
  have hrest : (isHigh v && rest.head?.any isLow) = false := by rw [isHigh_eq_false hv, Bool.false_and]
  have hfirst : isUnpaired (u :: v :: rest) 0 = false := by
    have : isLow u = false := by
      cases hl : isLow u with
      | false => rfl
      | true => rw [isHigh_eq_false hl] at hu; cases hu
    simp [isUnpaired, hv, this]
  have hsecond : isUnpaired (u :: v :: rest) 1 = false := by simp [isUnpaired, hu, isHigh_eq_false hv]
  have hothers (i : Nat) : isUnpaired (u :: v :: rest) (i + 1 + 1) = isUnpaired rest i := by
    rw [← isUnpaired_cons hrest i]
    simp [isUnpaired]
  simp only [mended, List.mapIdx_cons, hfirst, hsecond, hothers, Bool.false_eq_true, if_false, Nat.zero_add]

theorem toNat_ofNat {n : Nat} (h : n.isValidChar) : (Char.ofNat n).toNat = n := by
  rw [Char.ofNat, dif_pos h]
  rfl

theorem ofChar_ofNat {u : UInt16} (h : (isHigh u || isLow u) = false) : ofChar (Char.ofNat u.toNat) = [u] := by
  have hlt := u.toNat_lt
  rw [Bool.eq_false_iff, ne_eq, isSurrogate_iff] at h
  have hvalid : u.toNat.isValidChar := by
    unfold Nat.isValidChar
    omega
  rw [ofChar, toNat_ofNat hvalid, if_pos (by omega), UInt16.ofNat_toNat]

theorem toNat_of_isHigh {u : UInt16} (h : isHigh u = true) : 0xd800 ≤ u.toNat ∧ u.toNat < 0xdc00 := by
  simp only [isHigh, Bool.and_eq_true, decide_eq_true_eq, UInt16.le_iff_toNat_le, UInt16.lt_iff_toNat_lt] at h
  exact h

theorem toNat_of_isLow {u : UInt16} (h : isLow u = true) : 0xdc00 ≤ u.toNat ∧ u.toNat < 0xe000 := by
  simp only [isLow, Bool.and_eq_true, decide_eq_true_eq, UInt16.le_iff_toNat_le, UInt16.lt_iff_toNat_lt] at h
  exact h

theorem ofChar_ofPair {u v : UInt16} (hu : isHigh u = true) (hv : isLow v = true) : ofChar (ofPair u v) = [u, v] := by
  have hhigh := toNat_of_isHigh hu
  have hlow := toNat_of_isLow hv
  obtain ⟨n, hn⟩ : ∃ n, n = 0x10000 + (u.toNat - 0xd800) * 0x400 + (v.toNat - 0xdc00) := ⟨_, rfl⟩
  have hvalid : n.isValidChar := by
    unfold Nat.isValidChar
    omega
  rw [ofChar, ofPair, ← hn, toNat_ofNat hvalid, if_neg (by omega)]
  have hfirst : (highSurrogate n).toNat = u.toNat := by rw [toNat_highSurrogate (by omega) (by omega)]; omega
  have hsecond : (lowSurrogate n).toNat = v.toNat := by rw [toNat_lowSurrogate]; omega
  rw [UInt16.toNat_inj.mp hfirst, UInt16.toNat_inj.mp hsecond]

/-- Reading units as characters keeps all of them but the surrogates outside a pair. -/
theorem encode_decodeLossy (units : List UInt16) : encode (String.ofList (decodeLossy units)) = mended units := by
  rw [encode, String.toList_ofList]
  fun_induction decodeLossy units with
  | case1 => rfl
  | case2 u =>
    rw [mended_cons (by simp)]
    cases hs : isHigh u || isLow u with
    | true => rfl
    | false => simp [ofChar_ofNat hs, mended]
  | case3 u v rest h ih =>
    obtain ⟨hu, hv⟩ := Bool.and_eq_true_iff.mp h
    rw [List.flatMap_cons, ih, ofChar_ofPair hu hv, mended_pair hu hv]
    rfl
  | case4 u v rest hpair hs ih =>
    rw [List.flatMap_cons, ih, @mended_cons u (v :: rest) (by simpa using hpair), if_pos hs]
    rfl
  | case5 u v rest hpair hs ih =>
    rw [List.flatMap_cons, ih, @mended_cons u (v :: rest) (by simpa using hpair), if_neg hs,
      ofChar_ofNat (by simpa using hs)]
    rfl

/-- Units that can be read without a replacement are read alike. -/
theorem decodeLossy_of_decode? {units : List UInt16} {cs : List Char} (h : decode? units = some cs) :
    decodeLossy units = cs := by
  fun_induction decode? units generalizing cs with
  | case1 => exact Option.some.inj h
  | case2 u hs => cases h
  | case3 u hs =>
    cases h
    rw [decodeLossy, if_neg hs]
  | case4 u v rest hpair ih =>
    obtain ⟨cs, hcs, rfl⟩ := Option.map_eq_some_iff.mp h
    rw [decodeLossy, if_pos hpair, ih hcs]
  | case5 u v rest hpair hs => cases h
  | case6 u v rest hpair hs ih =>
    obtain ⟨cs, hcs, rfl⟩ := Option.map_eq_some_iff.mp h
    rw [decodeLossy, if_neg hpair, if_neg hs, ih hcs]

end Dalvik.Utf16
