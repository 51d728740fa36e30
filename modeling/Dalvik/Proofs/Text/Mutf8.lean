import Dalvik.Proofs.Text.Utf16
import Dalvik.Text.Mutf8

/-!
# Modified UTF-8 and back

A string is written as its UTF-16 code units one by one (`encode_eq`), and units
that were written one by one are read with U+FFFD for each surrogate outside a
pair, whichever of the three readers takes them (`decode?_flatMap`). So string
data is read as the string that was written (`decode?_encode`). The written form
of a unit has no zero byte and at least one byte, so that the zero byte behind a
string is the first one, and a string has no more units than bytes.
-/

namespace Dalvik.Mutf8

theorem toNat_continuation (n : Nat) : (continuation n).toNat = 0x80 + n % 0x40 := by
  simp only [continuation, UInt8.toNat_ofNat']
  omega

theorem isContinuation_continuation (n : Nat) : isContinuation (continuation n) = true := by
  simp only [isContinuation, toNat_continuation, decide_eq_true_eq]
  omega

/-- The written form of a unit is read as that unit, whatever follows. -/
theorem decodeUnit?_encodeUnit (u : UInt16) (rest : List UInt8) :
    decodeUnit? (encodeUnit u ++ rest) = some (u, rest) := by
  have hlt := u.toNat_lt
  have hu : UInt16.ofNat u.toNat = u := UInt16.ofNat_toNat
  unfold encodeUnit
  dsimp only
  split
  · rename_i h
    rw [← hu, h]
    rfl
  · split
    · have hn : (UInt8.ofNat u.toNat).toNat = u.toNat := by
        simp only [UInt8.toNat_ofNat']
        omega
      simp only [List.singleton_append, decodeUnit?, hn, hu]
      rw [if_neg (by omega), if_pos (by omega)]
    · split
      · have hn : (UInt8.ofNat (0xc0 + u.toNat / 0x40)).toNat = 0xc0 + u.toNat / 0x40 := by
          simp only [UInt8.toNat_ofNat']
          omega
        simp only [List.cons_append, List.nil_append, decodeUnit?, hn, toNat_continuation, isContinuation_continuation,
          if_true]
        rw [if_neg (by omega), if_neg (by omega), if_pos (by omega),
          show (0xc0 + u.toNat / 0x40) % 0x20 * 0x40 + (0x80 + u.toNat % 0x40) % 0x40 = u.toNat by omega, hu]
      · have hn : (UInt8.ofNat (0xe0 + u.toNat / 0x1000)).toNat = 0xe0 + u.toNat / 0x1000 := by
          simp only [UInt8.toNat_ofNat']
          omega
        simp only [List.cons_append, List.nil_append, decodeUnit?, hn, toNat_continuation, isContinuation_continuation,
          Bool.and_self, if_true]
        rw [if_neg (by omega), if_neg (by omega), if_neg (by omega), if_pos (by omega),
          show (0xe0 + u.toNat / 0x1000) % 0x10 * 0x1000 + (0x80 + u.toNat / 0x40 % 0x40) % 0x40 * 0x40 +
            (0x80 + u.toNat % 0x40) % 0x40 = u.toNat by omega, hu]

theorem encodeUnit_ne_nil (u : UInt16) : encodeUnit u ≠ [] := by
  unfold encodeUnit
  dsimp only
  split
  · simp
  · split
    · simp
    · split <;> simp

/-- The form of a character with one unit is its form in UTF-8, unless it is the zero character. -/
theorem utf8EncodeChar_eq {c : Char} (hpos : c.toNat ≠ 0) (hc : c.toNat < 0x10000) :
    String.utf8EncodeChar c = encodeUnit (UInt16.ofNat c.toNat) := by
  obtain ⟨n, hn⟩ : ∃ n, n = c.toNat := ⟨_, rfl⟩
  have hv : c.val.toNat = n := hn.symm
  have hu : (UInt16.ofNat n).toNat = n := by
    simp only [UInt16.toNat_ofNat']
    omega
  rw [← hn] at hpos hc
  unfold String.utf8EncodeChar encodeUnit
  simp only [hv, hu, ← hn, continuation]
  rw [if_neg hpos]
  by_cases h1 : n < 0x80
  · rw [if_pos (by omega), if_pos h1]
  · rw [if_neg (by omega), if_neg h1]
    by_cases h2 : n < 0x800
    · rw [if_pos (by omega), if_pos h2, show n / 64 % 32 + 192 = 0xc0 + n / 0x40 by omega, Nat.add_comm (n % 64)]
    · rw [if_neg (by omega), if_pos (by omega), if_neg h2, show n / 4096 % 16 + 224 = 0xe0 + n / 0x1000 by omega,
        Nat.add_comm (n / 64 % 64), Nat.add_comm (n % 64)]

/-- A character is written as its units. -/
theorem encodeChar_eq (c : Char) : encodeChar c = (Utf16.ofChar c).flatMap encodeUnit := by
  unfold encodeChar Utf16.ofChar
  by_cases hpos : c.toNat = 0
  · rw [if_pos hpos, hpos]
    rfl
  · rw [if_neg hpos]
    by_cases hc : c.toNat < 0x10000
    · rw [if_pos hc, if_pos hc, utf8EncodeChar_eq hpos hc, List.flatMap_singleton]
    · rw [if_neg hc, if_neg hc]
      simp

/-- A string is written as its units. -/
theorem encode_eq (s : String) : encode s = (Utf16.encode s).flatMap encodeUnit := by
  rw [encode, Utf16.encode, List.flatMap_assoc]
  exact List.flatMap_congr fun c _ => encodeChar_eq c

theorem decodeUnits?_of_some {bytes rest : List UInt8} {u : UInt16} (h : decodeUnit? bytes = some (u, rest)) :
    decodeUnits? bytes = (decodeUnits? rest).map (u :: ·) := by
  have hne : bytes.isEmpty = false := by
    cases bytes with
    | nil => cases h
    | cons => rfl
  rw [decodeUnits?, hne, if_neg Bool.false_ne_true]
  split
  · rename_i hnone
    rw [h] at hnone
    cases hnone
  · rename_i hsome
    rw [h] at hsome
    cases hsome
    rfl

theorem decodeUnits?_of_none {bytes : List UInt8} (hne : bytes ≠ []) (h : decodeUnit? bytes = none) :
    decodeUnits? bytes = none := by
  rw [decodeUnits?, if_neg (by simpa using hne)]
  split
  · rfl
  · rename_i hsome
    rw [h] at hsome
    cases hsome

/-- Units are read as they were written. -/
theorem decodeUnits?_flatMap (units : List UInt16) : decodeUnits? (units.flatMap encodeUnit) = some units := by
  induction units with
  | nil => rw [List.flatMap_nil, decodeUnits?, List.isEmpty_nil, if_pos rfl]
  | cons u units ih =>
    rw [List.flatMap_cons, decodeUnits?_of_some (decodeUnit?_encodeUnit u _), ih]
    rfl

/-- Plain UTF-8 has no units where it has a zero byte or a form of four bytes, and elsewhere it has the
units of its characters. -/
theorem decodeLossy_of_utf8 {cs : List Char} {units : List UInt16}
    (h : decodeUnits? (cs.flatMap String.utf8EncodeChar) = some units) : Utf16.decodeLossy units = cs := by
  induction cs generalizing units with
  | nil =>
    rw [List.flatMap_nil, decodeUnits?, List.isEmpty_nil, if_pos rfl] at h
    cases h
    rfl
  | cons c cs ih =>
    have hlt := Utf16.toNat_lt c
    have hne : String.utf8EncodeChar c ++ cs.flatMap String.utf8EncodeChar ≠ [] := by
      simp [String.utf8EncodeChar_ne_nil]
    rw [List.flatMap_cons] at h
    by_cases hpos : c.toNat = 0
    · have hzero : String.utf8EncodeChar c = [0] := by
        have hv : c.val.toNat = 0 := hpos
        simp only [String.utf8EncodeChar, hv]
        rfl
      rw [decodeUnits?_of_none hne (by rw [hzero]; rfl)] at h
      cases h
    · by_cases hc : c.toNat < 0x10000
      · rw [utf8EncodeChar_eq hpos hc, decodeUnits?_of_some (decodeUnit?_encodeUnit _ _)] at h
        obtain ⟨units, hunits, rfl⟩ := Option.map_eq_some_iff.mp h
        have hone := Utf16.decodeLossy_ofChar c units
        rw [Utf16.ofChar, if_pos hc] at hone
        rw [← ih hunits]
        exact hone
      · have hfour : decodeUnit? (String.utf8EncodeChar c ++ cs.flatMap String.utf8EncodeChar) = none := by
          have hv : ¬c.val.toNat ≤ 65535 := fun hle => hc (Nat.lt_succ_of_le hle)
          have hlead : (UInt8.ofNat (c.val.toNat / 262144 % 8 + 240)).toNat = c.val.toNat / 262144 % 8 + 240 := by
            simp only [UInt8.toNat_ofNat']
            omega
          simp only [String.utf8EncodeChar, if_neg hv, if_neg (show ¬c.val.toNat ≤ 127 by omega),
            if_neg (show ¬c.val.toNat ≤ 2047 by omega), List.cons_append, decodeUnit?, hlead]
          rw [if_neg (by omega), if_neg (by omega), if_neg (by omega), if_neg (by omega)]
        rw [decodeUnits?_of_none hne hfour] at h
        cases h

/-- Text in plain UTF-8 consists of the forms of its characters. -/
theorem flatMap_of_fromUTF8? {bytes : List UInt8} {s : String} (h : String.fromUTF8? ⟨bytes.toArray⟩ = some s) :
    s.toList.flatMap String.utf8EncodeChar = bytes := by
  unfold String.fromUTF8? at h
  split at h
  · cases h
    have hdata := congrArg ByteArray.data (String.utf8Encode_toList (b := String.fromUTF8 ⟨bytes.toArray⟩ ‹_›))
    rw [List.utf8Encode, List.data_toByteArray] at hdata
    exact (Array.mk.injEq _ _).mp hdata
  · cases h

/-- Units that are all shortest forms of a sequence are taken as they stand, unless a surrogate has no
partner. -/
theorem decodeStrict?_flatMap (units : List UInt16) :
    decodeStrict? (units.flatMap encodeUnit) = (Utf16.decode? units).map String.ofList := by
  simp only [decodeStrict?, decodeUnits?_flatMap, Option.bind_eq_bind, Option.bind_some, guard]
  cases Utf16.decode? units <;> simp

/-- Units that are read as text give the text that they also give one by one. -/
theorem eq_of_decodeText? {units : List UInt16} {s : String} (h : decodeText? (units.flatMap encodeUnit) = some s) :
    s = String.ofList (Utf16.decodeLossy units) := by
  rw [decodeText?, Option.orElse_eq_orElse, Option.orElse_eq_or, Option.or_eq_some_iff] at h
  rcases h with h | ⟨-, h⟩
  · have hunits := decodeUnits?_flatMap units
    rw [← flatMap_of_fromUTF8? h] at hunits
    rw [decodeLossy_of_utf8 hunits, String.ofList_toList]
  · rw [decodeStrict?_flatMap] at h
    obtain ⟨cs, hcs, rfl⟩ := Option.map_eq_some_iff.mp h
    rw [Utf16.decodeLossy_of_decode? hcs]

/-- Units that were written one by one are read with U+FFFD for each surrogate outside a pair. -/
theorem decode?_flatMap (units : List UInt16) :
    decode? (units.flatMap encodeUnit) = some (String.ofList (Utf16.decodeLossy units)) := by
  rw [decode?, decodeUnits?_flatMap]
  cases h : decodeText? (units.flatMap encodeUnit) with
  | none => rfl
  | some s => rw [eq_of_decodeText? h]; rfl

/-- No byte of a written unit is zero. -/
theorem ne_zero_of_mem_encodeUnit {u : UInt16} {b : UInt8} (h : b ∈ encodeUnit u) : b ≠ 0 := by
  have hlt := u.toNat_lt
  have hcontinuation : ∀ n, continuation n ≠ 0 := fun n hn => by
    have := congrArg UInt8.toNat hn
    rw [toNat_continuation] at this
    exact absurd this (by simp)
  have hofNat : ∀ n, 0 < n → n < 0x100 → UInt8.ofNat n ≠ 0 := fun n hpos hbound hn => by
    have := congrArg UInt8.toNat hn
    rw [UInt8.toNat_ofNat', UInt8.toNat_zero, Nat.mod_eq_of_lt (by omega)] at this
    omega
  unfold encodeUnit at h
  dsimp only at h
  split at h
  · simp only [List.mem_cons, List.not_mem_nil, or_false] at h
    rcases h with rfl | rfl <;> decide
  · split at h
    · simp only [List.mem_cons, List.not_mem_nil, or_false] at h
      subst h
      exact hofNat _ (by omega) (by omega)
    · split at h
      · simp only [List.mem_cons, List.not_mem_nil, or_false] at h
        rcases h with rfl | rfl
        · exact hofNat _ (by omega) (by omega)
        · exact hcontinuation _
      · simp only [List.mem_cons, List.not_mem_nil, or_false] at h
        rcases h with rfl | rfl | rfl
        · exact hofNat _ (by omega) (by omega)
        · exact hcontinuation _
        · exact hcontinuation _

/-- No byte of written units is zero. -/
theorem zero_notMem_flatMap (units : List UInt16) : 0 ∉ units.flatMap encodeUnit := fun h => by
  obtain ⟨u, -, hu⟩ := List.mem_flatMap.mp h
  exact ne_zero_of_mem_encodeUnit hu rfl

/-- There are no more units than bytes. -/
theorem length_le_length_flatMap (units : List UInt16) : units.length ≤ (units.flatMap encodeUnit).length := by
  induction units with
  | nil => exact Nat.le_refl _
  | cons u units ih =>
    have := List.length_pos_iff.mpr (encodeUnit_ne_nil u)
    rw [List.flatMap_cons, List.length_append, List.length_cons]
    omega

/-- A string has no more units than bytes. -/
theorem length_le_length_encode (s : String) : Utf16.length s ≤ (encode s).length := by
  rw [Utf16.length_eq, encode_eq]
  exact length_le_length_flatMap _

end Dalvik.Mutf8
