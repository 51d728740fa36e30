import Dalvik.Proofs.Instruction.References
import Dalvik.Proofs.Opcode

/-!
# Instructions are read as they were written

One instruction is read by `Instruction.yields_decode`; the forms of instructions
that follow each other follow each other (`Instruction.exists_of_encodeFrom`).
-/

namespace Dalvik

namespace Piece

/-- The number of bytes of a piece. -/
def size : Piece → Nat
  | plain bytes => bytes.length
  | index _ => 2

theorem length_of_writeAll {pieces : List Piece} {form : List UInt8} (h : writeAll pieces = (form, .ok ())) :
    form.length = (pieces.map size).sum := by
  induction pieces generalizing form with
  | nil => rw [writeAll_nil.mp h]; rfl
  | cons piece pieces ih =>
    cases piece with
    | plain bytes =>
      obtain ⟨more, hmore, rfl⟩ := writeAll_plain.mp h
      rw [List.length_append, ih hmore]
      rfl
    | index reference =>
      obtain ⟨v, -, hunit⟩ := exists_of_writeAll_index h
      obtain ⟨more, hmore, rfl⟩ := writeAll_unit.mp hunit
      rw [List.length_append, ih hmore]
      rfl

end Piece

namespace Operands

theorem length_ints (vs : List Int32) : (vs.flatMap Write.int).length = 4 * vs.length := by
  rw [List.length_flatMap, List.map_congr_left fun v _ => Write.length_uint v.toUInt32]
  simp [Nat.mul_comm]

theorem size_pieces (operands : Operands UInt32) (value : Nat) :
    ((operands.pieces value).map Piece.size).sum = 2 * operands.codeUnits := by
  cases operands with
  | packedSwitch firstKey targets =>
    simp only [pieces, Piece.unit, Piece.number, Piece.size, codeUnits, List.map_cons, List.map_nil, List.sum_cons,
      List.sum_nil, LittleEndian.length_encode, length_ints]
    omega
  | sparseSwitch cases =>
    have hkeys := length_ints (cases.map (·.1))
    have htargets := length_ints (cases.map (·.2))
    rw [List.flatMap_map, List.length_map] at hkeys htargets
    simp only [pieces, Piece.unit, Piece.size, codeUnits, List.map_cons, List.map_nil, List.sum_cons, List.sum_nil,
      LittleEndian.length_encode, hkeys, htargets]
    omega
  | arrayData width elements =>
    have hlength := length_arrayElements width.toNat elements
    simp only [pieces, arrayBytes, Piece.unit, Piece.number, Piece.size, codeUnits, List.map_cons, List.map_nil,
      List.sum_cons, List.sum_nil, List.length_append, List.length_replicate, LittleEndian.length_encode, hlength]
    omega
  | _ => rfl

theorem codeUnits_pos {ρ : Type} (operands : Operands ρ) : 0 < operands.codeUnits := by
  cases operands with
  | packedSwitch => exact Nat.lt_add_right _ (by decide)
  | sparseSwitch => exact Nat.lt_add_right _ (by decide)
  | arrayData => exact Nat.lt_add_right _ (by decide)
  | _ => exact Nat.succ_pos _

/-- Every element of an array takes up a byte. -/
theorem elementCount_le {operands : Operands UInt32} (h : operands.check = .ok ()) :
    operands.elementCount ≤ 2 * operands.codeUnits := by
  cases operands with
  | arrayData width elements =>
    obtain ⟨hpos, -⟩ := width_spec (checkElements_eq_ok.mp h).1
    have := Nat.le_mul_of_pos_left elements.length hpos
    show elements.length ≤ 2 * (4 + (width.toNat * elements.length + 1) / 2)
    omega
  | _ => exact Nat.zero_le _

theorem eq_f10x {ρ : Type} {operands : Operands ρ} (h : operands.format = .f10x) : operands = f10x := by
  cases operands <;> first | rfl | cases h

end Operands

namespace Instruction

open Read Result

variable {o o' : Opcodes} {i : Instruction UInt32} {form : List UInt8}

/-- What an instruction needs to be written, and what is written of it. -/
theorem encode_eq_ok (h : i.encode o = (form, .ok ())) : i.check = .ok () ∧ i.opcode.existsAt o.api = true ∧
    Piece.writeAll (i.operands.pieces i.opcode.value) = (form, .ok ()) := by
  unfold encode at h
  cases hcheck : i.check with
  | error e => simp [hcheck] at h
  | ok u =>
    cases hvalue : o.value? i.opcode with
    | none => simp [hcheck, hvalue, Result.fail] at h
    | some value =>
      simp only [hcheck, hvalue] at h
      unfold Opcodes.value? Opcode.valueAt? at hvalue
      split at hvalue
      · cases hvalue
        exact ⟨rfl, ‹_›, h⟩
      · cases hvalue

theorem length_of_encode (h : i.encode o = (form, .ok ())) : form.length = 2 * i.codeUnits := by
  rw [Piece.length_of_writeAll (encode_eq_ok h).2.2, Operands.size_pieces]
  rfl

theorem elementCount_lt (h : i.encode o = (form, .ok ())) (hlength : form.length < UInt32.size) :
    i.operands.elementCount < UInt32.size := by
  have hle := Operands.elementCount_le (check_eq_ok.mp (encode_eq_ok h).1).2
  rw [length_of_encode h] at hlength
  exact Nat.lt_of_le_of_lt hle hlength

theorem encode_ne_nil (h : i.encode o = (form, .ok ())) : form ≠ [] := by
  rw [← List.length_pos_iff, length_of_encode h]
  exact Nat.mul_pos (by decide) i.operands.codeUnits_pos

/-- An instruction is read, by any opcodes that cover those it was written with, as
it was written. -/
theorem yields_decode (hcovers : o'.Covers o) (hop : i.opcode ∈ Opcode.table)
    (hcount : i.operands.elementCount < UInt32.size) (h : i.encode o = (form, .ok ())) :
    Yields (decode o') form i.extended := by
  obtain ⟨hcheck, hexists, hform⟩ := encode_eq_ok h
  obtain ⟨hformat, hoperands⟩ := check_eq_ok.mp hcheck
  have hfound := Opcodes.opcode?_eq hop (hcovers hop hexists)
  refine .tell fun start => ?_
  -- In both cases the first code unit stands for the value of the opcode.
  suffices hsuffices : ∃ unit rest, unit < 0x10000 ∧ opcodeValue unit = i.opcode.value ∧
      form = LittleEndian.encode 2 unit ++ rest ∧
      Yields (Operands.read i.opcode start (unit / 0x100)) rest i.operands.extended by
    obtain ⟨unit, rest, hlt, hvalue, rfl, hread⟩ := hsuffices
    refine (Operands.yields_unit hlt).bind ?_
    rw [UInt16.toNat_ofNat_of_lt' hlt]
    dsimp only
    rw [hvalue, hfound]
    exact hread.bind_pure _
  rcases Opcode.value_spec hop with ⟨hlt, hplain, hzero⟩ | hpayload
  · by_cases hnop : i.opcode.value = 0
    · have hnone : i.operands = .f10x := Operands.eq_f10x (hformat.symm.trans (hzero hnop))
      rw [hnone, hnop] at hform
      obtain ⟨rest, hrest, rfl⟩ := Piece.writeAll_unit.mp hform
      refine ⟨0, rest, by decide, hnop.symm, rfl, ?_⟩
      rw [Piece.writeAll_nil.mp hrest, hnone]
      unfold Operands.read
      simp only [hzero hnop]
      exact .pure _
    · obtain ⟨high, rest, hhigh, rfl, hread⟩ := Operands.readBack hformat hplain hoperands hform
      refine ⟨_, rest, by omega, ?_, rfl, ?_⟩
      · unfold opcodeValue
        rw [if_neg (by omega)]
        omega
      · have hoperandsPlain : i.operands.format.isPayload = false := by
          rw [← hplain, hformat]
          rfl
        rw [show (i.opcode.value + 0x100 * high) / 0x100 = high by omega, Operands.extended_of_plain hoperandsPlain]
        exact hread start
  · have hspec : i.opcode.format.isPayload = true ∧ i.opcode.value < 0x10000 ∧ opcodeValue i.opcode.value = i.opcode.value := by
      rcases hpayload with ⟨hf, hv⟩ | ⟨hf, hv⟩ | ⟨hf, hv⟩ <;> rw [hf, hv] <;> decide
    obtain ⟨rest, rfl, hread⟩ := Operands.readBack_payload hformat hspec.1 hoperands hcount hform
    exact ⟨_, rest, hspec.2.1, hspec.2.2, rfl, hread start _⟩

/-! ## Instructions that follow each other -/

/-- Written instructions follow each other, and so do their addresses. -/
theorem exists_of_encodeFrom {address units : Nat} {code : List (Instruction UInt32)} {form : List UInt8}
    (h : encodeFrom o address code = (form, .ok units)) :
    ∃ forms, form = forms.flatten ∧ List.Forall₂ (fun i form => encode o i = (form, .ok ())) code forms ∧
      units = address + (code.map codeUnits).sum := by
  induction code generalizing address form with
  | nil =>
    cases h
    exact ⟨[], rfl, .nil, rfl⟩
  | cons i code ih =>
    unfold encodeFrom at h
    split at h
    · cases h
    · cases hi : i.encode o with
      | mk first outcome =>
        cases outcome with
        | error e => simp [hi] at h
        | ok u =>
          cases hrest : encodeFrom o (address + i.codeUnits) code with
          | mk rest outcome =>
            simp only [hi, hrest, Prod.mk.injEq] at h
            obtain ⟨rfl, rfl⟩ := h
            obtain ⟨forms, rfl, hforms, hunits⟩ := ih hrest
            refine ⟨first :: forms, rfl, .cons hi hforms, ?_⟩
            rw [hunits, List.map_cons, List.sum_cons, Nat.add_assoc]

theorem length_of_encodeFrom {code : List (Instruction UInt32)} {forms : List (List UInt8)}
    (h : List.Forall₂ (fun i form => encode o i = (form, .ok ())) code forms) :
    forms.flatten.length = 2 * (code.map codeUnits).sum := by
  induction h with
  | nil => rfl
  | cons hi _ ih =>
    rw [List.flatten_cons, List.length_append, length_of_encode hi, ih, List.map_cons, List.sum_cons, Nat.mul_add]

end Instruction

end Dalvik
