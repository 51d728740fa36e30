import Dalvik.Instruction.Check
import Dalvik.Proofs.Outcome

/-!
# What the checks of operands allow

Each check succeeds exactly when the operand fits its place
(`checkNibble_eq_ok` and its like), and `Instruction.check` when the format and
the operands are right (`Instruction.check_eq_ok`).
-/

namespace Dalvik

namespace Result

variable {α : Type}

/-- A step without a value, followed by others. -/
theorem unit_bind_eq_ok {r : Result Unit} {next : Unit → Result α} {a : α} :
    r >>= next = .ok a ↔ r = .ok () ∧ next () = .ok a := by
  cases r with
  | error e => simp
  | ok u => simp

theorem ite_fail_eq_ok {p : Prop} [Decidable p] {cause : Cause} :
    (if p then (.fail cause : Result Unit) else .ok ()) = .ok () ↔ ¬p := by
  split <;> simp_all [Result.fail]

theorem ite_ok_eq_ok {p : Prop} [Decidable p] {cause : Cause} :
    (if p then .ok () else (.fail cause : Result Unit)) = .ok () ↔ p := by
  split <;> simp_all [Result.fail]

theorem within_eq_ok_iff {r : Result α} {context : Context} {a : α} : r.within context = .ok a ↔ r = .ok a := by
  cases r <;> simp [Result.within, Except.mapError]

end Result

namespace Operands

open Result

/-! ## Registers -/

theorem checkNibble_eq_ok {r : UInt16} : checkNibble r = .ok () ↔ r.toNat ≤ 0xf := by
  rw [checkNibble, ite_fail_eq_ok, Nat.not_lt]

theorem checkByte_eq_ok {r : UInt16} : checkByte r = .ok () ↔ r.toNat ≤ 0xff := by
  rw [checkByte, ite_fail_eq_ok, Nat.not_lt]

theorem forM_checkNibble_eq_ok {registers : List UInt16} :
    registers.forM checkNibble = .ok () ↔ ∀ r ∈ registers, r.toNat ≤ 0xf := by
  induction registers with
  | nil => exact ⟨fun _ _ hr => (nomatch hr), fun _ => rfl⟩
  | cons r registers ih =>
    show (checkNibble r >>= fun _ => registers.forM checkNibble) = .ok () ↔ _
    rw [unit_bind_eq_ok, checkNibble_eq_ok, ih, List.forall_mem_cons]

theorem checkList_eq_ok {registers : List UInt16} :
    checkList registers = .ok () ↔ registers.length ≤ 5 ∧ ∀ r ∈ registers, r.toNat ≤ 0xf := by
  unfold checkList
  split
  · simp [Result.fail]; omega
  · rw [forM_checkNibble_eq_ok]
    exact ⟨fun h => ⟨by omega, h⟩, And.right⟩

theorem checkRange_eq_ok {start count : UInt16} : checkRange start count = .ok () ↔
    count.toNat ≤ 0xff ∧ (0 < count.toNat → start.toNat + count.toNat ≤ 0x10000) := by
  unfold checkRange
  split
  · simp [Result.fail]; omega
  · rw [ite_fail_eq_ok]
    omega

/-! ## Literals and offsets -/

theorem fitsSigned_eq_true {bits : Nat} {n : Int} :
    fitsSigned bits n = true ↔ -(bitBound (bits - 1) : Int) ≤ n ∧ n < (bitBound (bits - 1) : Int) := by
  simp [fitsSigned]

theorem checkLiteral_eq_ok {bits : Nat} {literal : Int32} :
    checkLiteral bits literal = .ok () ↔ fitsSigned bits literal.toInt = true := by
  rw [checkLiteral, ite_ok_eq_ok]

theorem checkOffset_eq_ok {bits : Nat} {offset : Int} {name : String} :
    checkOffset bits offset name = .ok () ↔ fitsSigned bits offset = true := by
  rw [checkOffset, ite_ok_eq_ok]

theorem checkHigh_eq_ok {bits : Nat} {literal : Int} :
    checkHigh bits literal = .ok () ↔ literal % (bitBound bits : Int) = 0 := by
  rw [checkHigh, ite_fail_eq_ok, not_not]

/-! ## Verification errors -/

/-- The bits of a kind lead back to it. -/
theorem ofVerificationBits_eq {kind : ReferenceKind} {bits : Nat} (h : kind.verificationBits = .ok bits) :
    bits < 4 ∧ ReferenceKind.ofVerificationBits bits = .ok kind := by
  cases kind <;> cases h <;> decide

theorem checkVerification_eq_ok {ρ : Type} {error : UInt8} {kind : ReferenceKind} {reference : ρ}
    (h : check (f20bc error kind reference) = .ok ()) : error.toNat ≤ 0x3f ∧
      ∃ bits, kind.verificationBits = .ok bits ∧ bits < 4 ∧ ReferenceKind.ofVerificationBits bits = .ok kind := by
  by_cases herror : error.toNat > 0x3f
  · simp [check, herror, Result.fail] at h
  · rw [check, if_neg herror] at h
    obtain ⟨bits, hbits, -⟩ := Result.map_eq_ok h
    exact ⟨Nat.not_lt.mp herror, bits, hbits, ofVerificationBits_eq hbits⟩

/-! ## Payloads -/

theorem checkElements_eq_ok {width : UInt16} {elements : List Int64} : checkElements width elements = .ok () ↔
    width ∈ [1, 2, 4, 8] ∧ ∀ e ∈ elements, fitsWidth width e = true := by
  unfold checkElements
  split
  · rename_i hwidth
    cases hfind : elements.find? fun e => !fitsWidth width e with
    | none =>
      rw [List.find?_eq_none] at hfind
      simp_all
    | some e =>
      have hspec := List.find?_some hfind
      have hmem := List.mem_of_find?_eq_some hfind
      refine ⟨fun h => (nomatch h), fun ⟨_, hfits⟩ => ?_⟩
      rw [hfits e hmem] at hspec
      cases hspec
  · simp_all [Result.fail]

end Operands

namespace Instruction

/-- An instruction can be written if its operands have the format of its opcode and
fit their places. -/
theorem check_eq_ok {ρ : Type} {i : Instruction ρ} :
    i.check = .ok () ↔ i.opcode.format = i.format ∧ i.operands.check = .ok () := by
  unfold check
  split
  · simp_all [Result.fail]
  · simp_all [Result.within_eq_ok_iff]

end Instruction

end Dalvik
