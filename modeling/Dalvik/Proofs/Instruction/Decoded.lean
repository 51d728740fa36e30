import Dalvik.Proofs.Instruction.Stream
import Dalvik.Proofs.Taking

/-!
# What is read can be written

Code that is read is tiled by its instructions. Each of them can be written again,
unless its registers pass the last one or the keys of its switch do not ascend;
then it takes as many bytes as it was read from, and it is read as the same
instruction (`decodeAll_tiles`).
-/

namespace Dalvik

namespace Operands

open Read Result

variable {ρ : Type}

/-- Operands that can be read and not be written: a range of registers that passes
the last register, and a switch whose keys do not ascend. -/
def Unwritable : Operands ρ → Prop
  | f3rc start count _ | f3rmi start count _ | f3rms start count _ | f4rcc start count _ _ =>
    0x10000 < start.toNat + count.toNat
  | sparseSwitch cases => ¬ cases.Pairwise fun c d => c.1.toInt < d.1.toInt
  | _ => False

/-- What holds of operands that have been read from `count` bytes behind the first
code unit. -/
structure ReadFrom (op : Opcode) (operands : Operands UInt32) (count : Nat) : Prop where
  format : operands.format = op.format
  size : count + 2 = 2 * operands.codeUnits
  check : operands.check = .ok () ↔ ¬ operands.Unwritable
  references : ∀ r ∈ operands.shortReferences, r.toNat ≤ 0xffff
  extended : operands.extended = operands
  elementCount : operands.elementCount < UInt32.size

/-! ## Numbers that fit -/

theorem toNat_ofNat_byte {n : Nat} (h : n < 0x100) : (UInt16.ofNat n).toNat = n := by
  exact UInt16.toNat_ofNat_of_lt' (Nat.lt_of_lt_of_le h (by decide))

theorem checkNibble_low (n : Nat) : checkNibble (UInt16.ofNat (n % 0x10)) = .ok () := by
  rw [checkNibble_eq_ok, toNat_ofNat_byte (by omega)]
  omega

theorem checkNibble_top {n : Nat} (h : n < 0x100) : checkNibble (UInt16.ofNat (n / 0x10)) = .ok () := by
  rw [checkNibble_eq_ok, toNat_ofNat_byte (by omega)]
  omega

theorem checkByte_ofNat {n : Nat} (h : n < 0x100) : checkByte (UInt16.ofNat n) = .ok () := by
  rw [checkByte_eq_ok, toNat_ofNat_byte h]
  exact Nat.le_of_lt_succ h

theorem fitsSigned_signedByte (n : Nat) : fitsSigned 8 (signedByte n).toInt = true := by
  have hle : -0x80 ≤ Int.bmod n 0x100 := Int.le_bmod (by decide)
  have hlt : Int.bmod n 0x100 < 0x80 := Int.bmod_lt (by decide)
  have htoInt : (signedByte n).toInt = Int.bmod n 0x100 := Int32.toInt_ofInt_of_le (by omega) (by omega)
  exact fitsSigned_byte.mpr (htoInt ▸ ⟨hle, hlt⟩)

theorem toInt_readShort (v : Int16) : (Int32.ofInt v.toInt).toInt = v.toInt :=
  Int32.toInt_ofInt_of_le (by have := v.le_toInt; omega) (by have := v.toInt_lt; omega)

theorem takes_readShort : Takes readShort fun v taken => taken = 2 ∧ fitsSigned 16 v.toInt = true :=
  takes_short.map _ fun v _ htaken => ⟨htaken, by
    rw [fitsSigned_short, toInt_readShort]
    exact ⟨v.le_toInt, v.toInt_lt⟩⟩

theorem toNat_index (v : UInt16) : (UInt32.ofNat v.toNat).toNat ≤ 0xffff := by
  have := v.toNat_lt
  rw [UInt32.toNat_ofNat_of_lt' (by change _ < 4294967296; omega)]
  omega

theorem takes_readIndex : Takes readIndex fun r taken => taken = 2 ∧ r.toNat ≤ 0xffff :=
  takes_ushort.map _ fun v _ htaken => ⟨htaken, toNat_index v⟩

/-- The high half of a byte, with its sign. -/
theorem toInt_nibbleLiteral (n : Nat) : -8 ≤ (Int32.ofInt (Int.bmod n 0x100 / 0x10)).toInt ∧
    (Int32.ofInt (Int.bmod n 0x100 / 0x10)).toInt ≤ 7 := by
  have hle : -0x80 ≤ Int.bmod n 0x100 := Int.le_bmod (by decide)
  have hlt : Int.bmod n 0x100 < 0x80 := Int.bmod_lt (by decide)
  rw [Int32.toInt_ofInt_of_le (by omega) (by omega)]
  omega

theorem checkHigh_half (v : Int16) : checkHigh 16 (Int32.ofInt (v.toInt * 0x10000)).toInt = .ok () := by
  have hle := v.le_toInt
  have hlt := v.toInt_lt
  rw [checkHigh_eq_ok, Int32.toInt_ofInt_of_le (by omega) (by omega)]
  exact Int.mul_emod_left ..

theorem checkHigh_quarter (v : Int16) : checkHigh 48 (Int64.ofInt (v.toInt * 0x1000000000000)).toInt = .ok () := by
  have hle := v.le_toInt
  have hlt := v.toInt_lt
  rw [checkHigh_eq_ok, Int64.toInt_ofInt_of_le (by omega) (by omega)]
  exact Int.mul_emod_left ..

theorem checkVerification {ρ : Type} {bits : Nat} {kind : ReferenceKind} {reference : ρ} (n : Nat)
    (h : ReferenceKind.ofVerificationBits bits = .ok kind) :
    check (f20bc (UInt8.ofNat (n % 0x40)) kind reference) = .ok () := by
  have herror : (UInt8.ofNat (n % 0x40)).toNat = n % 0x40 :=
    UInt8.toNat_ofNat_of_lt' (Nat.lt_of_lt_of_le (Nat.mod_lt _ (by decide)) (by decide))
  rw [check, herror, if_neg (by omega)]
  unfold ReferenceKind.ofVerificationBits at h
  split at h <;> cases h <;> rfl

/-- A range of fewer than 256 registers fits if it does not pass the last register. -/
theorem checkRange_byte {start : UInt16} {n : Nat} (h : n < 0x100) :
    checkRange start (UInt16.ofNat n) = .ok () ↔ ¬ 0x10000 < start.toNat + (UInt16.ofNat n).toNat := by
  have hlt := start.toNat_lt
  rw [checkRange_eq_ok, toNat_ofNat_byte h]
  omega

/-- Keys ascend if each is below all that follow. -/
theorem ascending_iff {cases : List (Int32 × Int32)} :
    ascending cases = true ↔ cases.Pairwise fun c d => c.1.toInt < d.1.toInt := by
  induction cases using ascending.induct with
  | case1 k t l u rest ih =>
    rw [ascending, Bool.and_eq_true, decide_eq_true_eq, ih, List.pairwise_cons (a := (k, t))]
    refine ⟨fun ⟨hlt, hrest⟩ => ⟨fun c hc => ?_, hrest⟩, fun ⟨hlt, hrest⟩ => ⟨hlt _ List.mem_cons_self, hrest⟩⟩
    rcases List.mem_cons.mp hc with rfl | hc
    · exact hlt
    · exact Int.lt_trans hlt ((List.pairwise_cons.mp hrest).1 c hc)
  | case2 cases h =>
    obtain _ | ⟨c, _ | ⟨d, rest⟩⟩ := cases
    · exact iff_of_true rfl .nil
    · exact iff_of_true rfl (List.pairwise_singleton ..)
    · exact absurd rfl (h c.1 c.2 d.1 d.2 rest)

/-! ## Elements of arrays -/

/-- What the low bytes of a number give keeps its value in 64 bits. -/
theorem toInt_low {size : Nat} (hle : size ≤ 8) (n : Int) :
    (Int64.ofInt (Int.bmod n (byteBound size))).toInt = Int.bmod n (byteBound size) := by
  have hpos := byteBound_pos size
  have hbound : byteBound size ≤ 2 ^ 64 := byteBound_le hle
  have hge := Int.le_bmod (x := n) hpos
  have hlt := Int.bmod_lt (x := n) hpos
  exact Int64.toInt_ofInt_of_le (by omega) (by omega)

theorem fitsWidth_low {width : UInt16} (hwidth : width ∈ [1, 2, 4, 8]) (n : Int) :
    fitsWidth width (Int64.ofInt (Int.bmod n (byteBound width.toNat))) = true := by
  have hpos := byteBound_pos width.toNat
  have hge := Int.le_bmod (x := n) hpos
  have hlt := Int.bmod_lt (x := n) hpos
  rw [fitsWidth, Bool.or_eq_true, Bool.or_eq_true, fitsSigned_eq_true, toInt_low (width_spec hwidth).2]
  refine .inl (.inr ?_)
  suffices byteBound width.toNat = 2 * bitBound (8 * width.toNat - 1) by omega
  simp only [List.mem_cons, List.not_mem_nil, or_false] at hwidth
  rcases hwidth with rfl | rfl | rfl | rfl <;> decide

theorem signExtended_low {width : UInt16} (hwidth : width ∈ [1, 2, 4, 8]) (n : Int) :
    signExtended width (Int64.ofInt (Int.bmod n (byteBound width.toNat))) =
      Int64.ofInt (Int.bmod n (byteBound width.toNat)) := by
  rw [signExtended, toInt_low (width_spec hwidth).2, Int.bmod_bmod]

/-! ## Formats -/

variable {op : Opcode} {operands : Operands UInt32} {count high : Nat}

/-- Operands that are no data of a switch or of an array. -/
theorem ReadFrom.of_plain (hformat : op.format = operands.format) (hplain : operands.format.isPayload = false)
    (hsize : count + 2 = 2 * operands.codeUnits) (hcheck : operands.check = .ok () ↔ ¬ operands.Unwritable)
    (hreferences : ∀ r ∈ operands.shortReferences, r.toNat ≤ 0xffff) : ReadFrom op operands count where
  format := hformat.symm
  size := hsize
  check := hcheck
  references := hreferences
  extended := extended_of_plain hplain
  elementCount := by cases operands <;> first | exact (by decide : 0 < UInt32.size) | cases hplain

/-- Operands without a reference that fit wherever they are read from. -/
theorem ReadFrom.of_fits (hformat : op.format = operands.format) (hplain : operands.format.isPayload = false)
    (hsize : count + 2 = 2 * operands.codeUnits) (hcheck : operands.check = .ok ())
    (hwritable : ¬ operands.Unwritable) (hreferences : operands.shortReferences = []) :
    ReadFrom op operands count :=
  .of_plain hformat hplain hsize (iff_of_true hcheck hwritable) fun r hr => by rw [hreferences] at hr; cases hr

/-- An index and a list of registers take two code units, and the registers fit. -/
theorem takes_readList (start : Nat) : Takes (read.readList op start high) fun list taken =>
    taken = 4 ∧ checkList list.2 = .ok () := by
  unfold read.readList
  split
  · exact .fail_bind _
  · rename_i hcount
    refine takes_ushort.bind fun index _ hindex => takes_ushort.map _ fun four _ hfour => ⟨?_, ?_⟩
    · rw [hindex, hfour]
    · rw [checkList_eq_ok, listRegisters, List.length_map, List.length_take]
      refine ⟨Nat.le_trans (Nat.min_le_left ..) (Nat.not_lt.mp hcount), fun r hr => ?_⟩
      obtain ⟨n, hn, rfl⟩ := List.mem_map.mp hr
      have hlt := four.toNat_lt
      have hn := List.mem_of_mem_take hn
      simp only [List.mem_cons, List.not_mem_nil, or_false] at hn
      rw [toNat_ofNat_byte] <;> omega

theorem takes_ints (count : Nat) : Takes (times int count) fun vs taken => vs.length = count ∧ taken = 4 * count := by
  have hint : Takes int fun _ taken => taken = 4 ∧ True := takes_int.mono fun _ _ h => ⟨h, trivial⟩
  exact (hint.times count).mono fun _ _ h => ⟨h.1, h.2.1.trans (Nat.mul_comm ..)⟩

/-- The elements of an array are filled up to a whole code unit. -/
theorem takes_readArray (hformat : op.format = .arrayData) (start : Nat) : Takes (readArray start) (ReadFrom op) := by
  unfold readArray
  refine takes_ushort.bind fun width _ hwidthTaken => takes_uint.bind fun count _ hcountTaken => ?_
  dsimp only
  split
  · exact .fail_bind _
  · rename_i hwidth
    have hwidth := not_not.mp hwidth
    refine .remaining fun _ => ?_
    split
    · exact .fail_bind _
    · obtain ⟨hpos, hle⟩ := width_spec hwidth
      refine (Takes.times (takes_sizedSigned hpos hle) count.toNat).bind
        fun elements _ helements => ?_
      obtain ⟨hlength, htaken, helements⟩ := helements
      -- What is to be shown once the elements have been read, whatever the padding.
      have hread {pad : Nat} (hpad : pad = count.toNat * width.toNat % 2) : ReadFrom op (arrayData width elements)
          (2 + (4 + (count.toNat * width.toNat + pad))) := by
        refine ⟨hformat.symm, ?_, iff_of_true ?_ id, List.forall_mem_nil _, ?_, hlength.trans_lt count.toNat_lt⟩
        · rw [codeUnits, hlength, Nat.mul_comm width.toNat]
          omega
        · refine checkElements_eq_ok.mpr ⟨hwidth, fun e he => ?_⟩
          obtain ⟨raw, rfl⟩ := helements e he
          exact fitsWidth_low hwidth raw
        · refine congrArg _ ((List.map_congr_left fun e he => ?_).trans (List.map_id _))
          obtain ⟨raw, rfl⟩ := helements e he
          exact signExtended_low hwidth raw
      rw [hwidthTaken, hcountTaken, htaken]
      split
      · exact (takes_skip 1).map _ fun _ _ h => hread (by omega)
      · exact .pure (hread (by omega))

theorem takes_read (start : Nat) (hhigh : high < 0x100) : Takes (Operands.read op start high) (ReadFrom op) := by
  unfold Operands.read
  cases hformat : op.format with
  | f10t => exact .pure (.of_fits hformat rfl rfl (checkOffset_eq_ok.mpr (fitsSigned_signedByte high)) id rfl)
  | f10x => exact .pure (.of_fits hformat rfl rfl rfl id rfl)
  | f11n =>
    refine .pure (.of_fits hformat rfl rfl (unit_bind_eq_ok.mpr ⟨checkNibble_low high, ite_ok_eq_ok.mpr ?_⟩) id rfl)
    exact toInt_nibbleLiteral high
  | f11x => exact .pure (.of_fits hformat rfl rfl (checkByte_ofNat hhigh) id rfl)
  | f12x =>
    exact .pure (.of_fits hformat rfl rfl (unit_bind_eq_ok.mpr ⟨checkNibble_low high, checkNibble_top hhigh⟩) id rfl)
  | f20bc =>
    dsimp only
    cases hkind : ReferenceKind.ofVerificationBits (high / 0x40) with
    | error e => exact .throw e
    | ok kind =>
      exact takes_readIndex.map _ fun r _ h => .of_plain hformat rfl (by rw [h.1]; rfl)
        (iff_of_true (checkVerification high hkind) id) (List.forall_mem_singleton.mpr h.2)
  | f20t =>
    exact takes_readShort.map _ fun v _ h => .of_fits hformat rfl (by rw [h.1]; rfl) (checkOffset_eq_ok.mpr h.2) id rfl
  | f21c =>
    exact takes_readIndex.map _ fun r _ h => .of_plain hformat rfl (by rw [h.1]; rfl)
      (iff_of_true (checkByte_ofNat hhigh) id) (List.forall_mem_singleton.mpr h.2)
  | f21ih =>
    exact takes_short.map _ fun v _ h => .of_fits hformat rfl (by rw [h]; rfl)
      (unit_bind_eq_ok.mpr ⟨checkByte_ofNat hhigh, checkHigh_half v⟩) id rfl
  | f21lh =>
    exact takes_short.map _ fun v _ h => .of_fits hformat rfl (by rw [h]; rfl)
      (unit_bind_eq_ok.mpr ⟨checkByte_ofNat hhigh, checkHigh_quarter v⟩) id rfl
  | f21s =>
    exact takes_readShort.map _ fun v _ h => .of_fits hformat rfl (by rw [h.1]; rfl)
      (unit_bind_eq_ok.mpr ⟨checkByte_ofNat hhigh, checkLiteral_eq_ok.mpr h.2⟩) id rfl
  | f21t =>
    exact takes_readShort.map _ fun v _ h => .of_fits hformat rfl (by rw [h.1]; rfl)
      (unit_bind_eq_ok.mpr ⟨checkByte_ofNat hhigh, checkOffset_eq_ok.mpr h.2⟩) id rfl
  | f22b =>
    exact takes_ushort.map _ fun unit _ h => .of_fits hformat rfl (by rw [h]; rfl)
      (unit_bind_eq_ok.mpr ⟨checkByte_ofNat hhigh, unit_bind_eq_ok.mpr
        ⟨checkByte_ofNat (Nat.mod_lt _ (by decide)), checkLiteral_eq_ok.mpr (fitsSigned_signedByte _)⟩⟩) id rfl
  | f22c =>
    exact takes_readIndex.map _ fun r _ h => .of_plain hformat rfl (by rw [h.1]; rfl)
      (iff_of_true (unit_bind_eq_ok.mpr ⟨checkNibble_low high, checkNibble_top hhigh⟩) id)
      (List.forall_mem_singleton.mpr h.2)
  | f22cs =>
    exact takes_ushort.map _ fun v _ h => .of_fits hformat rfl (by rw [h]; rfl)
      (unit_bind_eq_ok.mpr ⟨checkNibble_low high, checkNibble_top hhigh⟩) id rfl
  | f22s =>
    exact takes_readShort.map _ fun v _ h => .of_fits hformat rfl (by rw [h.1]; rfl)
      (unit_bind_eq_ok.mpr ⟨checkNibble_low high, unit_bind_eq_ok.mpr
        ⟨checkNibble_top hhigh, checkLiteral_eq_ok.mpr h.2⟩⟩) id rfl
  | f22t =>
    exact takes_readShort.map _ fun v _ h => .of_fits hformat rfl (by rw [h.1]; rfl)
      (unit_bind_eq_ok.mpr ⟨checkNibble_low high, unit_bind_eq_ok.mpr
        ⟨checkNibble_top hhigh, checkOffset_eq_ok.mpr h.2⟩⟩) id rfl
  | f22x =>
    exact takes_ushort.map _ fun v _ h => .of_fits hformat rfl (by rw [h]; rfl) (checkByte_ofNat hhigh) id rfl
  | f23x =>
    exact takes_ushort.map _ fun unit _ h => .of_fits hformat rfl (by rw [h]; rfl)
      (unit_bind_eq_ok.mpr ⟨checkByte_ofNat hhigh, unit_bind_eq_ok.mpr ⟨checkByte_ofNat (Nat.mod_lt _ (by decide)),
        checkByte_ofNat (Nat.div_lt_of_lt_mul unit.toNat_lt)⟩⟩) id rfl
  | f30t => exact takes_int.map _ fun v _ h => .of_fits hformat rfl (by rw [h]; rfl) rfl id rfl
  | f31c => exact takes_uint.map _ fun v _ h => .of_fits hformat rfl (by rw [h]; rfl) (checkByte_ofNat hhigh) id rfl
  | f31i => exact takes_int.map _ fun v _ h => .of_fits hformat rfl (by rw [h]; rfl) (checkByte_ofNat hhigh) id rfl
  | f31t => exact takes_int.map _ fun v _ h => .of_fits hformat rfl (by rw [h]; rfl) (checkByte_ofNat hhigh) id rfl
  | f32x =>
    exact takes_ushort.bind fun a _ ha => takes_ushort.map _ fun b _ hb =>
      .of_fits hformat rfl (by rw [ha, hb]; rfl) rfl id rfl
  | f51l => exact takes_long.map _ fun v _ h => .of_fits hformat rfl (by rw [h]; rfl) (checkByte_ofNat hhigh) id rfl
  | f35c =>
    exact (takes_readList start).map _ fun list _ h => .of_plain hformat rfl (by rw [h.1]; rfl)
      (iff_of_true h.2 id) (List.forall_mem_singleton.mpr (toNat_index list.1))
  | f35mi =>
    exact (takes_readList start).map _ fun list _ h => .of_fits hformat rfl (by rw [h.1]; rfl) h.2 id rfl
  | f35ms =>
    exact (takes_readList start).map _ fun list _ h => .of_fits hformat rfl (by rw [h.1]; rfl) h.2 id rfl
  | f45cc =>
    exact (takes_readList start).bind fun list _ h => takes_readIndex.map _ fun proto _ hproto =>
      .of_plain hformat rfl (by rw [h.1, hproto.1]; rfl) (iff_of_true h.2 id)
        (List.forall_mem_cons.mpr ⟨toNat_index list.1, List.forall_mem_singleton.mpr hproto.2⟩)
  | f3rc =>
    exact takes_readIndex.bind fun r _ hr => takes_ushort.map _ fun first _ hfirst =>
      .of_plain hformat rfl (by rw [hr.1, hfirst]; rfl) (checkRange_byte hhigh) (List.forall_mem_singleton.mpr hr.2)
  | f3rmi =>
    exact takes_ushort.bind fun index _ hindex => takes_ushort.map _ fun first _ hfirst =>
      .of_plain hformat rfl (by rw [hindex, hfirst]; rfl) (checkRange_byte hhigh) (List.forall_mem_nil _)
  | f3rms =>
    exact takes_ushort.bind fun index _ hindex => takes_ushort.map _ fun first _ hfirst =>
      .of_plain hformat rfl (by rw [hindex, hfirst]; rfl) (checkRange_byte hhigh) (List.forall_mem_nil _)
  | f4rcc =>
    exact takes_readIndex.bind fun r _ hr => takes_ushort.bind fun first _ hfirst =>
      takes_readIndex.map _ fun proto _ hproto =>
        .of_plain hformat rfl (by rw [hr.1, hfirst, hproto.1]; rfl) (checkRange_byte hhigh)
          (List.forall_mem_cons.mpr ⟨hr.2, List.forall_mem_singleton.mpr hproto.2⟩)
  | packedSwitch =>
    refine takes_ushort.bind fun number _ hnumber => takes_int.bind fun key _ hkey =>
      (takes_ints _).map _ fun targets _ htargets => ?_
    obtain ⟨hlength, htaken⟩ := htargets
    have hlt := number.toNat_lt
    refine ⟨hformat.symm, ?_, iff_of_true (ite_fail_eq_ok.mpr (by omega)) id, List.forall_mem_nil _, rfl,
      (by decide : 0 < UInt32.size)⟩
    rw [hnumber, hkey, htaken, codeUnits, hlength]
    omega
  | sparseSwitch =>
    refine takes_ushort.bind fun number _ hnumber => (takes_ints _).bind fun keys _ hkeys =>
      (takes_ints _).map _ fun targets _ htargets => ?_
    obtain ⟨hkeys, hkeysTaken⟩ := hkeys
    obtain ⟨htargets, htargetsTaken⟩ := htargets
    have hlength : (keys.zip targets).length = number.toNat := by rw [List.length_zip, hkeys, htargets, Nat.min_self]
    have hlt := number.toNat_lt
    refine ⟨hformat.symm, ?_, ?_, List.forall_mem_nil _, rfl, (by decide : 0 < UInt32.size)⟩
    · rw [hnumber, hkeysTaken, htargetsTaken, codeUnits, hlength]
      omega
    · rw [check, if_neg (by omega), ite_ok_eq_ok, ascending_iff]
      exact not_not.symm
  | arrayData => exact takes_readArray hformat start

end Operands

namespace Instruction

open Read Result

variable {o : Opcodes}

/-! ## Instructions -/

/-- What holds of an instruction that has been read. -/
structure Decoded (o : Opcodes) (i : Instruction UInt32) : Prop where
  opcode : i.opcode ∈ Opcode.table
  value : (o.value? i.opcode).isSome
  check : i.check = .ok () ↔ ¬ i.operands.Unwritable
  references : ∀ r ∈ i.operands.shortReferences, r.toNat ≤ 0xffff
  extended : i.extended = i
  elementCount : i.operands.elementCount < UInt32.size

theorem takes_decode (o : Opcodes) : Takes (decode o) fun i taken => taken = 2 * i.codeUnits ∧ i.Decoded o := by
  refine .tell fun start => takes_ushort.bind fun unit _ hunit => ?_
  dsimp only
  cases hop : o.opcode? (opcodeValue unit.toNat) with
  | none => exact .fail _
  | some op =>
    obtain ⟨htable, hvalue⟩ := Opcodes.mem_of_opcode? hop
    refine (Operands.takes_read start (Nat.div_lt_of_lt_mul unit.toNat_lt)).map _ fun operands taken h => ⟨?_, ?_⟩
    · rw [hunit, Nat.add_comm, h.size]
      rfl
    · exact ⟨htable, hvalue, check_eq_ok.trans ((and_iff_right h.format.symm).trans h.check), h.references,
        congrArg (Instruction.mk op) h.extended, h.elementCount⟩

/-- What has been read is written, if it can be, as what is read as the same
instruction. -/
theorem Decoded.exists_encode {i : Instruction UInt32} (h : i.Decoded o) (hcheck : i.check = .ok ()) :
    ∃ form, i.encode o = (form, .ok ()) ∧ form.length = 2 * i.codeUnits ∧
      (decode o).on form.toArray 0 = (.ok i, form.length) := by
  obtain ⟨form, hform⟩ := exists_encode_iff.mpr ⟨hcheck, h.value, h.references⟩
  have hread := yields_decode (Opcodes.Covers.rfl (o := o)) h.opcode h.elementCount hform form.toArray 0
    ⟨[], [], by simp, rfl⟩
  rw [h.extended, Nat.zero_add] at hread
  exact ⟨form, hform, length_of_encode hform, hread⟩

/-! ## Streams -/

theorem on_decodeAddressed_eq_ok {bytes : Bytes} {address next : Nat} {first : Addressed UInt32}
    (hle : 2 * address ≤ bytes.size) (h : (decodeAddressed o).on bytes (2 * address) = (.ok first, next)) :
    ∃ i, first = ⟨UInt32.ofNat address, i⟩ ∧ next = 2 * (address + i.codeUnits) ∧ next ≤ bytes.size ∧
      i.Decoded o ∧ (decode o).on bytes (2 * address) = (.ok i, next) := by
  rw [decodeAddressed, on_bind, on_tell] at h
  simp only [Nat.mul_div_cancel_left address (by decide : 0 < 2)] at h
  obtain ⟨i, middle, hi, h⟩ := on_bind_eq_ok h
  cases h
  rw [on_within, Prod.mk.injEq] at hi
  have hdecode : (decode o).on bytes (2 * address) = (.ok i, next) := Prod.ext (within_eq_ok hi.1) hi.2
  obtain ⟨taken, rfl, hsize, htaken, hdecoded⟩ := takes_decode o _ _ _ _ hle hdecode
  exact ⟨i, rfl, by omega, hsize, hdecoded, hdecode⟩

/-- What is read up to the end stands there one after the other. -/
theorem exists_placed_of_on_decodeUpTo {bytes : Bytes} {fuel address next : Nat} {is : List (Addressed UInt32)}
    (hle : 2 * address ≤ bytes.size) (hfuel : bytes.size ≤ 2 * address + fuel)
    (h : (decodeUpTo o fuel).on bytes (2 * address) = (.ok is, next)) :
    ∃ code : List (Instruction UInt32), is = (placed address code).map (fun entry => ⟨UInt32.ofNat entry.1, entry.2⟩) ∧
      2 * (address + (code.map codeUnits).sum) = bytes.size ∧ ∀ place i, (place, i) ∈ placed address code →
        i.Decoded o ∧ (decode o).on bytes (2 * place) = (.ok i, 2 * (place + i.codeUnits)) := by
  induction fuel generalizing address is next with
  | zero =>
    cases h
    exact ⟨[], rfl, Nat.le_antisymm hle hfuel, fun _ _ h => (nomatch h)⟩
  | succ fuel ih =>
    rw [decodeUpTo, on_bind, on_remaining] at h
    simp only at h
    split at h
    · cases h
      exact ⟨[], rfl, Nat.le_antisymm hle (Nat.le_of_sub_eq_zero ‹_›), fun _ _ h => (nomatch h)⟩
    · obtain ⟨first, middle, hfirst, h⟩ := on_bind_eq_ok h
      obtain ⟨rest, last, hrest, h⟩ := on_bind_eq_ok h
      cases h
      obtain ⟨i, rfl, rfl, hmiddle, hi, hdecode⟩ := on_decodeAddressed_eq_ok hle hfirst
      have hpos : 0 < i.codeUnits := i.operands.codeUnits_pos
      obtain ⟨code, rfl, hsize, hcode⟩ := ih hmiddle (by omega) hrest
      refine ⟨i :: code, rfl, ?_, fun place j hj => ?_⟩
      · rw [List.map_cons, List.sum_cons]
        omega
      · rcases List.mem_cons.mp hj with heq | hj
        · cases heq
          exact ⟨hi, hdecode⟩
        · exact hcode place j hj

/-- Code that is read is tiled by its instructions, and each of them can be written
again unless it is one of two kinds. It takes as many bytes as it was read from, and
these are read as the same instruction. -/
theorem decodeAll_tiles (o : Opcodes) {code : Bytes} (hsize : code.size < UInt32.size)
    {is : List (Addressed UInt32)} (h : decodeAll o code = .ok is) :
    is.map (fun i => (i.address.toNat, i.instruction)) = placed 0 (is.map (·.instruction)) ∧
    2 * (is.map (·.instruction.codeUnits)).sum = code.size ∧
    ∀ i ∈ is, (i.instruction.check = .ok () ↔ ¬ i.instruction.operands.Unwritable) ∧
      (i.instruction.check = .ok () → ∃ form, i.instruction.encode o = (form, .ok ()) ∧
        (decode o).on code (2 * i.address.toNat) = (.ok i.instruction, 2 * i.address.toNat + form.length) ∧
        (decode o).on form.toArray 0 = (.ok i.instruction, form.length)) := by
  have hread : (decodeUpTo o code.size).on code (2 * 0) = (.ok is, ((decodeUpTo o code.size).on code 0).2) :=
    Prod.ext h rfl
  obtain ⟨stream, rfl, hend, hstream⟩ :=
    exists_placed_of_on_decodeUpTo (Nat.zero_le _) (Nat.le_of_eq (by rw [Nat.mul_zero, Nat.zero_add])) hread
  rw [Nat.zero_add] at hend
  have haddress : ∀ entry ∈ placed 0 stream, (UInt32.ofNat entry.1).toNat = entry.1 := fun (place, i) hi => by
    have hlt := address_lt_of_mem_placed hi
    exact UInt32.toNat_ofNat_of_lt' (by omega)
  have hinstructions := map_snd_placed 0 stream
  refine ⟨?_, ?_, ?_⟩
  · rw [List.map_map, List.map_map]
    refine (List.map_congr_left fun entry hentry => ?_).trans ((List.map_id _).trans (congrArg _ hinstructions.symm))
    exact Prod.ext (haddress entry hentry) rfl
  · have hunits := congrArg (List.map codeUnits) hinstructions
    rw [List.map_map] at hunits ⊢
    exact (congrArg (2 * ·.sum) hunits).trans hend
  · refine List.forall_mem_map.mpr fun (place, i) hi => ?_
    obtain ⟨hdecoded, hdecode⟩ := hstream place i hi
    refine ⟨hdecoded.check, fun hcheck => ?_⟩
    obtain ⟨form, hform, hlength, hagain⟩ := hdecoded.exists_encode hcheck
    refine ⟨form, hform, ?_, hagain⟩
    dsimp only
    rw [haddress _ hi, hdecode, hlength, Nat.mul_add]

/-- Code with a range of registers that passes the last one. -/
def passingRange : Bytes :=
  #[0x12, 0xf1, 0x77, 0x02, 0x01, 0x00, 0xff, 0xff, 0x0e, 0x07]

/-- Only the second of three instructions cannot be written again. The byte of the
last one that is not looked at is no part of it. -/
theorem decodeAll_tiles_passingRange :
    passingRange.size < UInt32.size ∧ ∃ is, decodeAll .standard passingRange = .ok is ∧
      is.map (fun i => (i.address.toNat, i.instruction.operands)) =
        [(0, .f11n 1 (-1)), (1, .f3rc 0xffff 2 1), (4, .f10x)] ∧
      2 * (is.map (·.instruction.codeUnits)).sum = 10 ∧
      ∀ i ∈ is, (i.instruction.check = .ok () ↔ ¬ i.instruction.operands.Unwritable) ∧
        (i.instruction.check = .ok () → ∃ form, i.instruction.encode .standard = (form, .ok ()) ∧
          (decode .standard).on form.toArray 0 = (.ok i.instruction, form.length)) := by
  have hsize : passingRange.size < UInt32.size := by decide
  have hread : (decodeAll .standard passingRange).toOption.map
      (List.map fun i => (i.address.toNat, i.instruction.operands)) =
        some [(0, .f11n 1 (-1)), (1, .f3rc 0xffff 2 1), (4, .f10x)] := by decide +kernel
  cases his : decodeAll .standard passingRange with
  | error e => rw [his] at hread; cases hread
  | ok is =>
    rw [his] at hread
    obtain ⟨-, hsum, hwritten⟩ := decodeAll_tiles .standard hsize his
    refine ⟨hsize, is, rfl, Option.some.inj hread, hsum, fun i hi => ⟨(hwritten i hi).1, fun hcheck => ?_⟩⟩
    obtain ⟨form, hform, -, hagain⟩ := (hwritten i hi).2 hcheck
    exact ⟨form, hform, hagain⟩

end Instruction

end Dalvik
