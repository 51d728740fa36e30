import Dalvik.Instruction.Decode
import Dalvik.Instruction.Encode
import Dalvik.Proofs.Instruction.Check
import Dalvik.Proofs.Numbers

/-!
# Operands are read as they were written

The first code unit of an instruction holds the value of the opcode in its low
byte and a part of the operands in its high byte; the other code units follow.
`Operands.readBack` reads the operands of all formats but those of payloads, for which
see `Operands.readBack_payload`.
-/

namespace Dalvik

namespace Piece

/-! ## Written pieces -/

section written

variable {pieces : List Piece} {form : List UInt8}

theorem writeAll_nil : writeAll [] = (form, .ok ()) ↔ form = [] := by
  simp [writeAll, eq_comm]

theorem writeAll_plain {bytes : List UInt8} : writeAll (plain bytes :: pieces) = (form, .ok ()) ↔
    ∃ more, writeAll pieces = (more, .ok ()) ∧ form = bytes ++ more := by
  simp [writeAll, write, Prod.ext_iff, eq_comm, and_comm]

theorem writeAll_unit {n : Nat} : writeAll (unit n :: pieces) = (form, .ok ()) ↔
    ∃ more, writeAll pieces = (more, .ok ()) ∧ form = LittleEndian.encode 2 n ++ more :=
  writeAll_plain

theorem writeAll_number {count : Nat} {n : Int} : writeAll (number count n :: pieces) = (form, .ok ()) ↔
    ∃ more, writeAll pieces = (more, .ok ()) ∧
      form = LittleEndian.encode count (n % (byteBound count : Nat)).toNat ++ more :=
  writeAll_plain

/-- An index is written as a number of 16 bits. -/
theorem exists_of_writeAll_index {reference : UInt32} (h : writeAll (index reference :: pieces) = (form, .ok ())) :
    ∃ v : UInt16, UInt32.ofNat v.toNat = reference ∧ writeAll (unit v.toNat :: pieces) = (form, .ok ()) := by
  by_cases hle : reference.toNat > 0xffff
  · simp [writeAll, write, hle, Result.fail] at h
  · have hv : (UInt16.ofNat reference.toNat).toNat = reference.toNat :=
      UInt16.toNat_ofNat_of_lt' (Nat.lt_succ_of_le (Nat.not_lt.mp hle))
    refine ⟨UInt16.ofNat reference.toNat, by rw [hv, UInt32.ofNat_toNat], ?_⟩
    simp only [writeAll, write, if_neg hle] at h
    rw [hv]
    exact h

end written

theorem nibbles_eq (low a b : Nat) : nibbles low a b = unit (low + 0x100 * (a + 0x10 * b)) := by
  rw [nibbles, show low + 0x100 * a + 0x1000 * b = low + 0x100 * (a + 0x10 * b) by omega]

end Piece

namespace Format

/-- What is no payload has from one to five code units. -/
theorem codeUnits_of_plain {f : Format} (h : f.isPayload = false) : f.codeUnits? = some 1 ∨
    f.codeUnits? = some 2 ∨ f.codeUnits? = some 3 ∨ f.codeUnits? = some 4 ∨ f.codeUnits? = some 5 := by
  cases f <;> first | decide | cases h

end Format

namespace Operands

open Read Result

/-! ## Parts of code units -/

theorem fitsSigned_byte {n : Int} : fitsSigned 8 n = true ↔ -0x80 ≤ n ∧ n < 0x80 :=
  fitsSigned_eq_true

theorem fitsSigned_short {n : Int} : fitsSigned 16 n = true ↔ -0x8000 ≤ n ∧ n < 0x8000 :=
  fitsSigned_eq_true

/-- The low one of two registers of four bits. -/
theorem low_eq {a : UInt16} (ha : a.toNat ≤ 0xf) (b : Nat) : UInt16.ofNat ((a.toNat + 0x10 * b) % 0x10) = a := by
  rw [show (a.toNat + 0x10 * b) % 0x10 = a.toNat by omega, UInt16.ofNat_toNat]

/-- The high one of two registers of four bits. -/
theorem top_eq {a : UInt16} (ha : a.toNat ≤ 0xf) (b : UInt16) : UInt16.ofNat ((a.toNat + 0x10 * b.toNat) / 0x10) = b := by
  rw [show (a.toNat + 0x10 * b.toNat) / 0x10 = b.toNat by omega, UInt16.ofNat_toNat]

/-- A signed number of eight bits. -/
theorem signedByte_eq {v : Int32} (h : -0x80 ≤ v.toInt ∧ v.toInt < 0x80) : signedByte (v.toInt % 0x100).toNat = v := by
  have hbmod : Int.bmod (v.toInt % 0x100).toNat 0x100 = v.toInt := by
    unfold Int.bmod
    dsimp only
    split <;> omega
  unfold signedByte
  rw [hbmod, Int32.ofInt_toInt]

/-- A signed number of four bits above a register. -/
theorem signedNibble_eq {a : UInt16} (ha : a.toNat ≤ 0xf) {v : Int32} (h : -8 ≤ v.toInt ∧ v.toInt ≤ 7) :
    Int32.ofInt (Int.bmod (a.toNat + 0x10 * (v.toInt % 0x10).toNat : Nat) 0x100 / 0x10) = v := by
  have hbmod : Int.bmod (a.toNat + 0x10 * (v.toInt % 0x10).toNat : Nat) 0x100 / 0x10 = v.toInt := by
    unfold Int.bmod
    dsimp only
    split <;> omega
  rw [hbmod, Int32.ofInt_toInt]

/-- A number of 32 bits whose low half is zero. -/
theorem highInt_eq {v : Int32} (h : v.toInt % 0x10000 = 0) :
    Int32.ofInt ((Int16.ofInt (v.toInt / 0x10000)).toInt * 0x10000) = v := by
  have hlow := v.le_toInt
  have hhigh := v.toInt_lt
  rw [Int16.toInt_ofInt_of_le (by omega) (by omega), Int.ediv_mul_cancel_of_emod_eq_zero h, Int32.ofInt_toInt]

/-- A number of 64 bits of which all but the high 16 are zero. -/
theorem highLong_eq {v : Int64} (h : v.toInt % 0x1000000000000 = 0) :
    Int64.ofInt ((Int16.ofInt (v.toInt / 0x1000000000000)).toInt * 0x1000000000000) = v := by
  have hlow := v.le_toInt
  have hhigh := v.toInt_lt
  rw [Int16.toInt_ofInt_of_le (by omega) (by omega), Int.ediv_mul_cancel_of_emod_eq_zero h, Int64.ofInt_toInt]

theorem yields_unit {n : Nat} (h : n < 0x10000) : Yields ushort (LittleEndian.encode 2 n) (UInt16.ofNat n) :=
  (yields_number_encode (show n < byteBound 2 from h) "u2").bind_pure UInt16.ofNat

theorem yields_readIndex (v : UInt16) : Yields readIndex (Write.ushort v) (UInt32.ofNat v.toNat) :=
  (yields_ushort v).bind_pure fun v => UInt32.ofNat v.toNat

/-- A signed number of 16 bits. -/
theorem yields_readShort {v : Int32} (h : -0x8000 ≤ v.toInt ∧ v.toInt < 0x8000) :
    Yields readShort (LittleEndian.encode 2 (v.toInt % (byteBound 2 : Nat)).toNat) v := by
  have := (yields_short_ofInt v.toInt).bind_pure fun n => Int32.ofInt n.toInt
  rwa [Int16.toInt_ofInt_of_le h.1 h.2, Int32.ofInt_toInt] at this

/-! ## Lists of registers -/

theorem registerAt_le {registers : List UInt16} (h : ∀ r ∈ registers, r.toNat ≤ 0xf) (place : Nat) :
    registerAt registers place ≤ 0xf := by
  unfold registerAt
  cases hr : registers[place]? with
  | none => simp
  | some r => exact h r (List.mem_of_getElem? hr)

theorem listRegisters_eq {registers : List UInt16} (hlength : registers.length ≤ 5)
    (h : ∀ r ∈ registers, r.toNat ≤ 0xf) : listRegisters registers.length (registerAt registers 4)
      (registerAt registers 0 + 0x10 * registerAt registers 1 + 0x100 * registerAt registers 2 +
        0x1000 * registerAt registers 3) = registers := by
  have h0 := registerAt_le h 0
  have h1 := registerAt_le h 1
  have h2 := registerAt_le h 2
  have h3 := registerAt_le h 3
  unfold listRegisters
  generalize hfour : registerAt registers 0 + 0x10 * registerAt registers 1 + 0x100 * registerAt registers 2 +
    0x1000 * registerAt registers 3 = four
  rw [show four % 0x10 = registerAt registers 0 by omega, show four / 0x10 % 0x10 = registerAt registers 1 by omega,
    show four / 0x100 % 0x10 = registerAt registers 2 by omega, show four / 0x1000 = registerAt registers 3 by omega]
  obtain _ | ⟨r0, _ | ⟨r1, _ | ⟨r2, _ | ⟨r3, _ | ⟨r4, _ | ⟨r5, rest⟩⟩⟩⟩⟩⟩ := registers
  case cons.cons.cons.cons.cons.cons =>
    simp only [List.length_cons] at hlength
    omega
  all_goals simp [registerAt]

/-- An index and a list of registers behind the first code unit. -/
theorem yields_readList {op : Opcode} {start : Nat} {registers : List UInt16} (hlength : registers.length ≤ 5)
    (h : ∀ r ∈ registers, r.toNat ≤ 0xf) (index : UInt16) :
    Yields (read.readList op start (registerAt registers 4 + 0x10 * registers.length))
      (Write.ushort index ++ LittleEndian.encode 2 (registerAt registers 0 + 0x10 * registerAt registers 1 +
        0x100 * registerAt registers 2 + 0x1000 * registerAt registers 3)) (index, registers) := by
  have h0 := registerAt_le h 0
  have h1 := registerAt_le h 1
  have h2 := registerAt_le h 2
  have h3 := registerAt_le h 3
  have h4 := registerAt_le h 4
  have hlist := listRegisters_eq hlength h
  generalize hfour : registerAt registers 0 + 0x10 * registerAt registers 1 + 0x100 * registerAt registers 2 +
    0x1000 * registerAt registers 3 = four at hlist ⊢
  have hlt : four < 0x10000 := by omega
  have hcount : (registerAt registers 4 + 0x10 * registers.length) / 0x10 = registers.length := by omega
  have hfifth : (registerAt registers 4 + 0x10 * registers.length) % 0x10 = registerAt registers 4 := by omega
  unfold read.readList
  rw [hcount, hfifth, if_neg (by omega)]
  refine (yields_ushort index).bind ((yields_unit hlt).bind_nil ?_)
  rw [UInt16.toNat_ofNat_of_lt' hlt]
  dsimp only
  rw [hlist]
  exact .pure _

/-! ## Last pieces -/

section last

open Piece

variable {form : List UInt8}

theorem eq_nil_of_writeAll (h : writeAll [] = (form, .ok ())) : form = [] :=
  writeAll_nil.mp h

theorem yields_last_index {reference : UInt32} (h : writeAll [.index reference] = (form, .ok ())) :
    Yields readIndex form reference := by
  obtain ⟨v, rfl, hunit⟩ := exists_of_writeAll_index h
  obtain ⟨rest, hrest, rfl⟩ := writeAll_unit.mp hunit
  rw [writeAll_nil.mp hrest, List.append_nil]
  exact yields_readIndex v

theorem yields_last_unit {v : UInt16} (h : writeAll [.unit v.toNat] = (form, .ok ())) : Yields ushort form v := by
  obtain ⟨rest, hrest, rfl⟩ := writeAll_unit.mp h
  rw [writeAll_nil.mp hrest, List.append_nil]
  exact yields_ushort v

theorem yields_last_short {v : Int32} (hfits : fitsSigned 16 v.toInt = true)
    (h : writeAll [.number 2 v.toInt] = (form, .ok ())) : Yields readShort form v := by
  obtain ⟨rest, hrest, rfl⟩ := writeAll_number.mp h
  rw [writeAll_nil.mp hrest, List.append_nil]
  exact yields_readShort (fitsSigned_short.mp hfits)

theorem yields_last_int {v : Int32} (h : writeAll [.number 4 v.toInt] = (form, .ok ())) : Yields int form v := by
  obtain ⟨rest, hrest, rfl⟩ := writeAll_number.mp h
  rw [writeAll_nil.mp hrest, List.append_nil, encode_toInt_int]
  exact yields_int v

theorem yields_last_long {v : Int64} (h : writeAll [.number 8 v.toInt] = (form, .ok ())) : Yields long form v := by
  obtain ⟨rest, hrest, rfl⟩ := writeAll_number.mp h
  rw [writeAll_nil.mp hrest, List.append_nil, encode_toInt_long]
  exact yields_long v

/-- The high half of a literal. -/
theorem yields_last_half {n : Int} (h : writeAll [.number 2 n] = (form, .ok ())) :
    Yields short form (Int16.ofInt n) := by
  obtain ⟨rest, hrest, rfl⟩ := writeAll_number.mp h
  rw [writeAll_nil.mp hrest, List.append_nil]
  exact yields_short_ofInt n

theorem yields_last_uint {v : UInt32} (h : writeAll [.plain (Write.uint v)] = (form, .ok ())) : Yields uint form v := by
  obtain ⟨rest, hrest, rfl⟩ := writeAll_plain.mp h
  rw [writeAll_nil.mp hrest, List.append_nil]
  exact yields_uint v

/-- An index and a list of registers, with other pieces behind them. -/
theorem exists_of_list {registers : List UInt16} (hlength : registers.length ≤ 5)
    (hlist : ∀ r ∈ registers, r.toNat ≤ 0xf) {index : UInt16} {tail : List Piece}
    (h : writeAll (.unit index.toNat :: listUnit registers :: tail) = (form, .ok ())) :
    ∃ first last, form = first ++ last ∧ writeAll tail = (last, .ok ()) ∧ ∀ op start,
      Yields (read.readList op start (registerAt registers 4 + 0x10 * registers.length)) first (index, registers) := by
  obtain ⟨rest, hrest, rfl⟩ := writeAll_unit.mp h
  obtain ⟨last, hlast, rfl⟩ := writeAll_unit.mp hrest
  exact ⟨_, last, (List.append_assoc ..).symm, hlast, fun op start => yields_readList hlength hlist index⟩

theorem yields_last_list {registers : List UInt16} (hlength : registers.length ≤ 5)
    (hlist : ∀ r ∈ registers, r.toNat ≤ 0xf) {index : UInt16}
    (h : writeAll [.unit index.toNat, listUnit registers] = (form, .ok ())) {op : Opcode} {start : Nat} :
    Yields (read.readList op start (registerAt registers 4 + 0x10 * registers.length)) form (index, registers) := by
  obtain ⟨first, last, rfl, hlast, hfirst⟩ := exists_of_list hlength hlist h
  rw [writeAll_nil.mp hlast, List.append_nil]
  exact hfirst op start

/-- A code unit with a register in its low byte. -/
theorem yields_last_bytes {α : Type} {b : UInt16} (hb : b.toNat ≤ 0xff) {high : Nat} (hhigh : high < 0x100)
    (h : writeAll [.bytes b.toNat high] = (form, .ok ())) (make : UInt16 → Nat → α) :
    Yields (do let unit ← ushort; return make (UInt16.ofNat (unit.toNat % 0x100)) (unit.toNat / 0x100)) form
      (make b high) := by
  obtain ⟨rest, hrest, rfl⟩ := writeAll_unit.mp h
  rw [writeAll_nil.mp hrest, List.append_nil]
  have hlt : b.toNat + 0x100 * high < 0x10000 := by omega
  have := (yields_unit hlt).bind_pure fun unit => make (UInt16.ofNat (unit.toNat % 0x100)) (unit.toNat / 0x100)
  rwa [UInt16.toNat_ofNat_of_lt' hlt, show (b.toNat + 0x100 * high) % 0x100 = b.toNat by omega,
    show (b.toNat + 0x100 * high) / 0x100 = high by omega, UInt16.ofNat_toNat] at this

end last

/-! ## Operands -/

/-- What is written of an instruction begins with the value of its opcode, and the
operands are read from the rest of it. -/
def ReadBack (op : Opcode) (value : Nat) (operands : Operands UInt32) (form : List UInt8) : Prop :=
  ∃ high rest, high < 0x100 ∧ form = LittleEndian.encode 2 (value + 0x100 * high) ++ rest ∧
    ∀ start, Yields (read op start high) rest operands

section formats

open Piece (writeAll writeAll_unit exists_of_writeAll_index nibbles_eq)

variable {op : Opcode} {value : Nat} {operands : Operands UInt32} {form : List UInt8}

theorem readBack_of_head (high : Nat) (hhigh : high < 0x100) {tail : List Piece}
    (hform : writeAll (.unit (value + 0x100 * high) :: tail) = (form, .ok ()))
    (h : ∀ rest, writeAll tail = (rest, .ok ()) → ∀ start, Yields (read op start high) rest operands) :
    ReadBack op value operands form := by
  obtain ⟨rest, hrest, rfl⟩ := writeAll_unit.mp hform
  exact ⟨high, rest, hhigh, rfl, h rest hrest⟩

/-! The cases of one lemma are the formats of one number of code units. -/

theorem readBack_of_one (hop : op.format = operands.format) (hsize : operands.format.codeUnits? = some 1)
    (hcheck : operands.check = .ok ()) (hform : writeAll (operands.pieces value) = (form, .ok ())) :
    ReadBack op value operands form := by
  cases operands with
  | f10t offset =>
    have hoffset := fitsSigned_byte.mp (checkOffset_eq_ok.mp hcheck)
    refine readBack_of_head _ (by omega) hform fun rest hrest start => ?_
    unfold read
    simp only [hop, format, eq_nil_of_writeAll hrest, signedByte_eq hoffset]
    exact .pure _
  | f10x =>
    refine readBack_of_head 0 (by omega) hform fun rest hrest start => ?_
    unfold read
    simp only [hop, format, eq_nil_of_writeAll hrest]
    exact .pure _
  | f11n a literal =>
    obtain ⟨ha, hliteral⟩ := unit_bind_eq_ok.mp hcheck
    rw [checkNibble_eq_ok] at ha
    rw [ite_ok_eq_ok] at hliteral
    rw [pieces, nibbles_eq] at hform
    refine readBack_of_head _ (by omega) hform fun rest hrest start => ?_
    unfold read
    simp only [hop, format, eq_nil_of_writeAll hrest, low_eq ha, signedNibble_eq ha hliteral]
    exact .pure _
  | f11x a =>
    have ha := checkByte_eq_ok.mp hcheck
    refine readBack_of_head _ (by omega) hform fun rest hrest start => ?_
    unfold read
    simp only [hop, format, eq_nil_of_writeAll hrest, UInt16.ofNat_toNat]
    exact .pure _
  | f12x a b =>
    obtain ⟨ha, hb⟩ := unit_bind_eq_ok.mp hcheck
    rw [checkNibble_eq_ok] at ha hb
    rw [pieces, nibbles_eq] at hform
    refine readBack_of_head _ (by omega) hform fun rest hrest start => ?_
    unfold read
    simp only [hop, format, eq_nil_of_writeAll hrest, low_eq ha, top_eq ha]
    exact .pure _
  | _ => cases hsize

theorem readBack_of_two (hop : op.format = operands.format) (hsize : operands.format.codeUnits? = some 2)
    (hcheck : operands.check = .ok ()) (hform : writeAll (operands.pieces value) = (form, .ok ())) :
    ReadBack op value operands form := by
  cases operands with
  | f20bc error kind reference =>
    obtain ⟨herror, bits, hbits, hlt, hkind⟩ := checkVerification_eq_ok hcheck
    rw [pieces, hbits] at hform
    refine readBack_of_head (error.toNat + 0x40 * bits) (by omega) hform fun rest hrest start => ?_
    unfold read
    simp only [hop, format, show (error.toNat + 0x40 * bits) / 0x40 = bits by omega,
      show (error.toNat + 0x40 * bits) % 0x40 = error.toNat by omega, hkind, UInt8.ofNat_toNat]
    exact (yields_last_index hrest).bind_pure _
  | f20t offset =>
    have hoffset := checkOffset_eq_ok.mp hcheck
    refine readBack_of_head 0 (by omega) hform fun rest hrest start => ?_
    unfold read
    simp only [hop, format]
    exact (yields_last_short hoffset hrest).bind_pure _
  | f21c a reference =>
    have ha := checkByte_eq_ok.mp hcheck
    refine readBack_of_head _ (by omega) hform fun rest hrest start => ?_
    unfold read
    simp only [hop, format, UInt16.ofNat_toNat]
    exact (yields_last_index hrest).bind_pure _
  | f21ih a literal =>
    obtain ⟨ha, hliteral⟩ := unit_bind_eq_ok.mp hcheck
    rw [checkByte_eq_ok] at ha
    refine readBack_of_head _ (by omega) hform fun rest hrest start => ?_
    unfold read
    simp only [hop, format, UInt16.ofNat_toNat]
    have := (yields_last_half hrest).bind_pure fun n => f21ih (ρ := UInt32) a (Int32.ofInt (n.toInt * 0x10000))
    rwa [highInt_eq (checkHigh_eq_ok.mp hliteral)] at this
  | f21lh a literal =>
    obtain ⟨ha, hliteral⟩ := unit_bind_eq_ok.mp hcheck
    rw [checkByte_eq_ok] at ha
    refine readBack_of_head _ (by omega) hform fun rest hrest start => ?_
    unfold read
    simp only [hop, format, UInt16.ofNat_toNat]
    have := (yields_last_half hrest).bind_pure fun n => f21lh (ρ := UInt32) a (Int64.ofInt (n.toInt * 0x1000000000000))
    rwa [highLong_eq (checkHigh_eq_ok.mp hliteral)] at this
  | f21s a literal =>
    obtain ⟨ha, hliteral⟩ := unit_bind_eq_ok.mp hcheck
    rw [checkByte_eq_ok] at ha
    rw [checkLiteral_eq_ok] at hliteral
    refine readBack_of_head _ (by omega) hform fun rest hrest start => ?_
    unfold read
    simp only [hop, format, UInt16.ofNat_toNat]
    exact (yields_last_short hliteral hrest).bind_pure _
  | f21t a offset =>
    obtain ⟨ha, hoffset⟩ := unit_bind_eq_ok.mp hcheck
    rw [checkByte_eq_ok] at ha
    rw [checkOffset_eq_ok] at hoffset
    refine readBack_of_head _ (by omega) hform fun rest hrest start => ?_
    unfold read
    simp only [hop, format, UInt16.ofNat_toNat]
    exact (yields_last_short hoffset hrest).bind_pure _
  | f22b a b literal =>
    obtain ⟨ha, hcheck⟩ := unit_bind_eq_ok.mp hcheck
    obtain ⟨hb, hliteral⟩ := unit_bind_eq_ok.mp hcheck
    rw [checkByte_eq_ok] at ha hb
    rw [checkLiteral_eq_ok, fitsSigned_byte] at hliteral
    refine readBack_of_head _ (by omega) hform fun rest hrest start => ?_
    unfold read
    simp only [hop, format, UInt16.ofNat_toNat]
    have := yields_last_bytes hb (by omega) hrest fun b n => f22b (ρ := UInt32) a b (signedByte n)
    rwa [signedByte_eq hliteral] at this
  | f22c a b reference =>
    obtain ⟨ha, hb⟩ := unit_bind_eq_ok.mp hcheck
    rw [checkNibble_eq_ok] at ha hb
    rw [pieces, nibbles_eq] at hform
    refine readBack_of_head _ (by omega) hform fun rest hrest start => ?_
    unfold read
    simp only [hop, format, low_eq ha, top_eq ha]
    exact (yields_last_index hrest).bind_pure _
  | f22cs a b fieldOffset =>
    obtain ⟨ha, hb⟩ := unit_bind_eq_ok.mp hcheck
    rw [checkNibble_eq_ok] at ha hb
    rw [pieces, nibbles_eq] at hform
    refine readBack_of_head _ (by omega) hform fun rest hrest start => ?_
    unfold read
    simp only [hop, format, low_eq ha, top_eq ha]
    exact (yields_last_unit hrest).bind_pure _
  | f22s a b literal =>
    obtain ⟨ha, hcheck⟩ := unit_bind_eq_ok.mp hcheck
    obtain ⟨hb, hliteral⟩ := unit_bind_eq_ok.mp hcheck
    rw [checkNibble_eq_ok] at ha hb
    rw [checkLiteral_eq_ok] at hliteral
    rw [pieces, nibbles_eq] at hform
    refine readBack_of_head _ (by omega) hform fun rest hrest start => ?_
    unfold read
    simp only [hop, format, low_eq ha, top_eq ha]
    exact (yields_last_short hliteral hrest).bind_pure _
  | f22t a b offset =>
    obtain ⟨ha, hcheck⟩ := unit_bind_eq_ok.mp hcheck
    obtain ⟨hb, hoffset⟩ := unit_bind_eq_ok.mp hcheck
    rw [checkNibble_eq_ok] at ha hb
    rw [checkOffset_eq_ok] at hoffset
    rw [pieces, nibbles_eq] at hform
    refine readBack_of_head _ (by omega) hform fun rest hrest start => ?_
    unfold read
    simp only [hop, format, low_eq ha, top_eq ha]
    exact (yields_last_short hoffset hrest).bind_pure _
  | f22x a b =>
    have ha := checkByte_eq_ok.mp hcheck
    refine readBack_of_head _ (by omega) hform fun rest hrest start => ?_
    unfold read
    simp only [hop, format, UInt16.ofNat_toNat]
    exact (yields_last_unit hrest).bind_pure _
  | f23x a b c =>
    obtain ⟨ha, hcheck⟩ := unit_bind_eq_ok.mp hcheck
    obtain ⟨hb, hc⟩ := unit_bind_eq_ok.mp hcheck
    rw [checkByte_eq_ok] at ha hb hc
    refine readBack_of_head _ (by omega) hform fun rest hrest start => ?_
    unfold read
    simp only [hop, format, UInt16.ofNat_toNat]
    have := yields_last_bytes hb (by omega) hrest fun b n => f23x (ρ := UInt32) a b (UInt16.ofNat n)
    rwa [UInt16.ofNat_toNat] at this
  | _ => cases hsize

theorem readBack_of_three (hop : op.format = operands.format) (hsize : operands.format.codeUnits? = some 3)
    (hcheck : operands.check = .ok ()) (hform : writeAll (operands.pieces value) = (form, .ok ())) :
    ReadBack op value operands form := by
  cases operands with
  | f30t offset =>
    refine readBack_of_head 0 (by omega) hform fun rest hrest start => ?_
    unfold read
    simp only [hop, format]
    exact (yields_last_int hrest).bind_pure _
  | f31c a reference =>
    have ha := checkByte_eq_ok.mp hcheck
    refine readBack_of_head _ (by omega) hform fun rest hrest start => ?_
    unfold read
    simp only [hop, format, UInt16.ofNat_toNat]
    exact (yields_last_uint hrest).bind_pure _
  | f31i a literal =>
    have ha := checkByte_eq_ok.mp hcheck
    refine readBack_of_head _ (by omega) hform fun rest hrest start => ?_
    unfold read
    simp only [hop, format, UInt16.ofNat_toNat]
    exact (yields_last_int hrest).bind_pure _
  | f31t a offset =>
    have ha := checkByte_eq_ok.mp hcheck
    refine readBack_of_head _ (by omega) hform fun rest hrest start => ?_
    unfold read
    simp only [hop, format, UInt16.ofNat_toNat]
    exact (yields_last_int hrest).bind_pure _
  | f32x a b =>
    refine readBack_of_head 0 (by omega) hform fun rest hrest start => ?_
    unfold read
    simp only [hop, format]
    obtain ⟨last, hlast, rfl⟩ := writeAll_unit.mp hrest
    exact (yields_ushort a).bind ((yields_last_unit hlast).bind_pure _)
  | f35c registers reference =>
    obtain ⟨hlength, hlist⟩ := checkList_eq_ok.mp hcheck
    have h4 := registerAt_le hlist 4
    rw [pieces, listHead, nibbles_eq] at hform
    refine readBack_of_head _ (by omega) hform fun rest hrest start => ?_
    unfold read
    simp only [hop, format]
    obtain ⟨index, rfl, hunits⟩ := exists_of_writeAll_index hrest
    exact (yields_last_list hlength hlist hunits).bind_pure _
  | f35mi registers index =>
    obtain ⟨hlength, hlist⟩ := checkList_eq_ok.mp hcheck
    have h4 := registerAt_le hlist 4
    rw [pieces, listHead, nibbles_eq] at hform
    refine readBack_of_head _ (by omega) hform fun rest hrest start => ?_
    unfold read
    simp only [hop, format]
    exact (yields_last_list hlength hlist hrest).bind_pure _
  | f35ms registers index =>
    obtain ⟨hlength, hlist⟩ := checkList_eq_ok.mp hcheck
    have h4 := registerAt_le hlist 4
    rw [pieces, listHead, nibbles_eq] at hform
    refine readBack_of_head _ (by omega) hform fun rest hrest start => ?_
    unfold read
    simp only [hop, format]
    exact (yields_last_list hlength hlist hrest).bind_pure _
  | f3rc first count reference =>
    have hcount := (checkRange_eq_ok.mp hcheck).1
    refine readBack_of_head _ (by omega) hform fun rest hrest start => ?_
    unfold read
    simp only [hop, format, UInt16.ofNat_toNat]
    obtain ⟨index, rfl, hunits⟩ := exists_of_writeAll_index hrest
    obtain ⟨last, hlast, rfl⟩ := writeAll_unit.mp hunits
    exact (yields_readIndex index).bind ((yields_last_unit hlast).bind_pure _)
  | f3rmi first count index =>
    have hcount := (checkRange_eq_ok.mp hcheck).1
    refine readBack_of_head _ (by omega) hform fun rest hrest start => ?_
    unfold read
    simp only [hop, format, UInt16.ofNat_toNat]
    obtain ⟨last, hlast, rfl⟩ := writeAll_unit.mp hrest
    exact (yields_ushort index).bind ((yields_last_unit hlast).bind_pure _)
  | f3rms first count index =>
    have hcount := (checkRange_eq_ok.mp hcheck).1
    refine readBack_of_head _ (by omega) hform fun rest hrest start => ?_
    unfold read
    simp only [hop, format, UInt16.ofNat_toNat]
    obtain ⟨last, hlast, rfl⟩ := writeAll_unit.mp hrest
    exact (yields_ushort index).bind ((yields_last_unit hlast).bind_pure _)
  | _ => cases hsize

/-- The longer formats: two references, or a literal of 64 bits. -/
theorem readBack_of_four_or_five (hop : op.format = operands.format)
    (hsize : operands.format.codeUnits? = some 4 ∨ operands.format.codeUnits? = some 5)
    (hcheck : operands.check = .ok ()) (hform : writeAll (operands.pieces value) = (form, .ok ())) :
    ReadBack op value operands form := by
  cases operands with
  | f45cc registers reference proto =>
    obtain ⟨hlength, hlist⟩ := checkList_eq_ok.mp hcheck
    have h4 := registerAt_le hlist 4
    rw [pieces, listHead, nibbles_eq] at hform
    refine readBack_of_head _ (by omega) hform fun rest hrest start => ?_
    unfold read
    simp only [hop, format]
    obtain ⟨index, rfl, hunits⟩ := exists_of_writeAll_index hrest
    obtain ⟨first, last, rfl, hlast, hfirst⟩ := exists_of_list hlength hlist hunits
    exact (hfirst op start).bind ((yields_last_index hlast).bind_pure _)
  | f4rcc first count reference proto =>
    have hcount := (checkRange_eq_ok.mp hcheck).1
    refine readBack_of_head _ (by omega) hform fun rest hrest start => ?_
    unfold read
    simp only [hop, format, UInt16.ofNat_toNat]
    obtain ⟨index, rfl, hunits⟩ := exists_of_writeAll_index hrest
    obtain ⟨more, hmore, rfl⟩ := writeAll_unit.mp hunits
    obtain ⟨last, hlast, rfl⟩ := writeAll_unit.mp hmore
    exact (yields_readIndex index).bind ((yields_ushort first).bind ((yields_last_index hlast).bind_pure _))
  | f51l a literal =>
    have ha := checkByte_eq_ok.mp hcheck
    refine readBack_of_head _ (by omega) hform fun rest hrest start => ?_
    unfold read
    simp only [hop, format, UInt16.ofNat_toNat]
    exact (yields_last_long hrest).bind_pure _
  | _ => obtain h | h := hsize <;> cases h

/-- The operands of all formats but those of payloads. -/
theorem readBack (hop : op.format = operands.format) (hplain : op.format.isPayload = false)
    (hcheck : operands.check = .ok ()) (hform : writeAll (operands.pieces value) = (form, .ok ())) :
    ReadBack op value operands form := by
  rw [hop] at hplain
  obtain h | h | h | h := Format.codeUnits_of_plain hplain
  · exact readBack_of_one hop h hcheck hform
  · exact readBack_of_two hop h hcheck hform
  · exact readBack_of_three hop h hcheck hform
  · exact readBack_of_four_or_five hop h hcheck hform

end formats

/-! ## Payloads -/

/-- The value of the low bytes of an element, with its sign. -/
def signExtended (width : UInt16) (e : Int64) : Int64 :=
  Int64.ofInt (Int.bmod e.toInt (byteBound width.toNat))

/-- The same operands with the elements of an array as their low bytes give
them. -/
def extended {ρ : Type} : Operands ρ → Operands ρ
  | arrayData width elements => arrayData width (elements.map (signExtended width))
  | operands => operands

/-- The number of elements of an array. -/
def elementCount {ρ : Type} : Operands ρ → Nat
  | arrayData _ elements => elements.length
  | _ => 0

theorem extended_of_plain {ρ : Type} {operands : Operands ρ} (h : operands.format.isPayload = false) :
    operands.extended = operands := by
  cases operands <;> first | rfl | cases h

theorem yields_ints (vs : List Int32) : Yields (times int vs.length) (vs.flatMap Write.int) vs := by
  have := Yields.times (List.forall₂_map_left_iff.mpr (List.forall₂_same.mpr fun v (_ : v ∈ vs) => yields_int v))
  rwa [← List.flatMap_def] at this

theorem width_spec {width : UInt16} (h : width ∈ [1, 2, 4, 8]) : 0 < width.toNat ∧ width.toNat ≤ 8 := by
  revert h
  simp only [List.mem_cons, List.not_mem_nil, or_false]
  rintro (rfl | rfl | rfl | rfl) <;> decide

theorem length_arrayElements (width : Nat) (elements : List Int64) :
    (elements.flatMap fun e => Write.sized e.toUInt64 width).length = width * elements.length := by
  rw [List.length_flatMap, List.map_congr_left fun e _ => LittleEndian.length_encode width e.toUInt64.toNat]
  simp [Nat.mul_comm]

/-- The elements of an array, filled up to a whole code unit. -/
theorem yields_readArray {width : UInt16} (hwidth : width ∈ [1, 2, 4, 8]) {elements : List Int64}
    (hcount : elements.length < UInt32.size) (start : Nat) : Yields (readArray start)
      (Write.ushort width ++ (Write.uint (UInt32.ofNat elements.length) ++ arrayBytes width.toNat elements))
      (arrayData width (elements.map (signExtended width))) := by
  obtain ⟨hpos, hle⟩ := width_spec hwidth
  have hlength := length_arrayElements width.toNat elements
  have hof : (UInt32.ofNat elements.length).toNat = elements.length := UInt32.toNat_ofNat_of_lt' hcount
  have htimes : Yields (times (sizedSigned width.toNat) elements.length)
      (elements.flatMap fun e => Write.sized e.toUInt64 width.toNat) (elements.map (signExtended width)) := by
    have := Yields.times (List.forall₂_map_left_iff.mpr (List.forall₂_map_right_iff.mpr
      (List.forall₂_same.mpr fun e (_ : e ∈ elements) => yields_sizedSigned_low hpos hle e)))
    rwa [← List.flatMap_def, List.length_map] at this
  unfold readArray arrayBytes
  refine (yields_ushort width).bind ((yields_uint _).bind ?_)
  rw [hof]
  simp only [hwidth, not_true_eq_false, if_false]
  refine .remaining fun count hremaining => ?_
  rw [List.length_append, hlength, Nat.mul_comm] at hremaining
  rw [if_neg (by omega)]
  rw [Nat.mul_comm elements.length]
  refine htimes.bind ?_
  by_cases hodd : width.toNat * elements.length % 2 = 0
  · rw [hodd, if_neg (not_not_intro rfl)]
    exact .pure _
  · rw [if_pos hodd]
    exact (yields_skip (by rw [List.length_replicate]; omega)).bind_nil (.pure _)

/-- The operands of payloads. The value of the opcode is the whole first code
unit. -/
theorem readBack_payload {op : Opcode} {value : Nat} {operands : Operands UInt32} {form : List UInt8}
    (hop : op.format = operands.format) (hpayload : op.format.isPayload = true) (hcheck : operands.check = .ok ())
    (hcount : operands.elementCount < UInt32.size) (hform : Piece.writeAll (operands.pieces value) = (form, .ok ())) :
    ∃ rest, form = LittleEndian.encode 2 value ++ rest ∧
      ∀ start high, Yields (read op start high) rest operands.extended := by
  cases operands with
  | packedSwitch firstKey targets =>
    obtain ⟨rest, hrest, rfl⟩ := Piece.writeAll_unit.mp hform
    obtain ⟨afterCount, hafterCount, rfl⟩ := Piece.writeAll_unit.mp hrest
    obtain ⟨afterKey, hafterKey, rfl⟩ := Piece.writeAll_number.mp hafterCount
    obtain ⟨last, hlast, rfl⟩ := Piece.writeAll_plain.mp hafterKey
    refine ⟨_, rfl, fun start high => ?_⟩
    have hlength : targets.length < 0x10000 := Nat.lt_succ_of_le (Nat.not_lt.mp (ite_fail_eq_ok.mp hcheck))
    unfold read
    simp only [hop, format, eq_nil_of_writeAll hlast, List.append_nil, encode_toInt_int]
    refine (yields_unit hlength).bind ?_
    rw [UInt16.toNat_ofNat_of_lt' hlength]
    exact (yields_int firstKey).bind ((yields_ints targets).bind_pure _)
  | sparseSwitch cases =>
    obtain ⟨rest, hrest, rfl⟩ := Piece.writeAll_unit.mp hform
    obtain ⟨afterCount, hafterCount, rfl⟩ := Piece.writeAll_unit.mp hrest
    obtain ⟨afterKeys, hafterKeys, rfl⟩ := Piece.writeAll_plain.mp hafterCount
    obtain ⟨last, hlast, rfl⟩ := Piece.writeAll_plain.mp hafterKeys
    refine ⟨_, rfl, fun start high => ?_⟩
    have hlength : cases.length < 0x10000 := by
      by_contra hge
      rw [check, if_pos (by omega)] at hcheck
      cases hcheck
    have hkeys := yields_ints (cases.map (·.1))
    have htargets := yields_ints (cases.map (·.2))
    rw [List.length_map, List.flatMap_map] at hkeys htargets
    unfold read
    simp only [hop, format, eq_nil_of_writeAll hlast, List.append_nil]
    refine (yields_unit hlength).bind ?_
    rw [UInt16.toNat_ofNat_of_lt' hlength]
    refine hkeys.bind ?_
    have := htargets.bind_pure fun targets => sparseSwitch (ρ := UInt32) ((cases.map (·.1)).zip targets)
    rwa [← List.zip_of_prod rfl rfl] at this
  | arrayData width elements =>
    obtain ⟨rest, hrest, rfl⟩ := Piece.writeAll_unit.mp hform
    obtain ⟨afterWidth, hafterWidth, rfl⟩ := Piece.writeAll_unit.mp hrest
    obtain ⟨afterCount, hafterCount, rfl⟩ := Piece.writeAll_number.mp hafterWidth
    obtain ⟨last, hlast, rfl⟩ := Piece.writeAll_plain.mp hafterCount
    refine ⟨_, rfl, fun start high => ?_⟩
    replace hcount : elements.length < UInt32.size := hcount
    have hlength : LittleEndian.encode 4 ((elements.length : Int) % (byteBound 4 : Nat)).toNat =
        Write.uint (UInt32.ofNat elements.length) := by
      have hlt : elements.length < byteBound 4 := hcount
      rw [Write.uint, UInt32.toNat_ofNat_of_lt' hcount, ← Int.natCast_emod, Int.toNat_natCast, Nat.mod_eq_of_lt hlt]
    have hread := yields_readArray (checkElements_eq_ok.mp hcheck).1 hcount start
    unfold read
    simp only [hop, format, eq_nil_of_writeAll hlast, List.append_nil, hlength]
    exact hread
  | _ =>
    rw [hop] at hpayload
    cases hpayload

end Operands

end Dalvik
