import Dalvik.Instruction.Branch
import Dalvik.Instruction.Parts
import Dalvik.Proofs.Instruction.Stream

/-!
# A branch goes where it is pointed to, or stays as it is

Each format of a branch has an offset of its own width (`Format.offsetBits?`). A branch
is pointed to another address exactly if the distance fits that width, and nothing but
the offset changes (`Addressed.withTarget_eq`). `Addressed.setTarget` does the same in
place and leaves a branch that it refuses as it was (`Addressed.pointed_eq`). What is
then written at the address of the branch is read as a branch to the new target
(`Addressed.retargets_exactly`).
-/

namespace Dalvik

variable {ρ : Type}

/-- The width of the branch offset of a format that has one, in bits. -/
def Format.offsetBits? : Format → Option Nat
  | f10t => some 8
  | f20t | f21t | f22t => some 16
  | f30t | f31t => some 32
  | _ => none

/-- How a message names a width of branch offsets. -/
def Format.offsetName (bits : Nat) : String :=
  if bits = 8 then "10t" else s!"{bits}-bit"

namespace Operands

/-- The same operands with another branch offset, where there is one. -/
def setOffset (offset : Int32) : Operands ρ → Operands ρ
  | f10t _ => f10t offset
  | f20t _ => f20t offset
  | f21t a _ => f21t a offset
  | f22t a b _ => f22t a b offset
  | f30t _ => f30t offset
  | f31t a _ => f31t a offset
  | operands => operands

variable {operands : Operands ρ} {offset : Int32} {bits : Nat}

@[simp] theorem format_setOffset : (operands.setOffset offset).format = operands.format := by
  cases operands <;> rfl

/-- The operands that have an offset are those whose format has a width for it. -/
theorem isSome_offset? : operands.offset?.isSome = operands.format.offsetBits?.isSome := by
  cases operands <;> rfl

theorem offset?_setOffset (h : operands.format.offsetBits? = some bits) :
    (operands.setOffset offset).offset? = some offset := by
  cases operands <;> first | rfl | cases h

/-- Nothing but the offset changes. -/
theorem parts_setOffset : { (operands.setOffset offset).parts with offset := none } =
    { operands.parts with offset := none } := by
  cases operands <;> rfl

/-- Operands are checked for the width of their format. -/
theorem check_setOffset (h : operands.check = .ok ()) (hbits : operands.format.offsetBits? = some bits)
    (hfits : fitsSigned bits offset.toInt = true) : (operands.setOffset offset).check = .ok () := by
  cases operands with
  | f10t | f20t =>
    cases hbits
    exact checkOffset_eq_ok.mpr hfits
  | f21t =>
    cases hbits
    exact Result.unit_bind_eq_ok.mpr ⟨(Result.unit_bind_eq_ok.mp h).1, checkOffset_eq_ok.mpr hfits⟩
  | f22t =>
    cases hbits
    obtain ⟨ha, h⟩ := Result.unit_bind_eq_ok.mp h
    exact Result.unit_bind_eq_ok.mpr ⟨ha,
      Result.unit_bind_eq_ok.mpr ⟨(Result.unit_bind_eq_ok.mp h).1, checkOffset_eq_ok.mpr hfits⟩⟩
  | f30t => rfl
  | f31t => exact h
  | _ => cases hbits

/-- A branch has neither references nor elements. -/
theorem plain_of_offsetBits? {operands : Operands UInt32} (h : operands.format.offsetBits? = some bits) :
    operands.shortReferences = [] ∧ operands.elementCount = 0 ∧ operands.extended = operands := by
  cases operands <;> first | exact ⟨rfl, rfl, rfl⟩ | cases h

end Operands

/-! ## Offsets that fit -/

/-- A number of at most 32 bits is kept by the word that holds it. -/
theorem toInt_ofInt_of_fitsSigned {bits : Nat} {n : Int} (hbits : bits ≤ 32)
    (h : Operands.fitsSigned bits n = true) : (Int32.ofInt n).toInt = n := by
  obtain ⟨hlow, hhigh⟩ := Operands.fitsSigned_eq_true.mp h
  have hle : bitBound (bits - 1) ≤ bitBound 31 := Nat.pow_le_pow_right (by decide) (by omega)
  have hbound : bitBound 31 = 2 ^ 31 := rfl
  refine Int32.toInt_ofInt_of_le ?_ ?_ <;> omega

theorem Format.offsetBits?_le {f : Format} {bits : Nat} (h : f.offsetBits? = some bits) : bits ≤ 32 := by
  cases f <;> cases h <;> decide

namespace Instruction

/-- Another offset is accepted if it fits the width of the format. -/
theorem withOffset_eq (i : Instruction ρ) (offset : Int) : i.withOffset offset =
    match i.format.offsetBits? with
    | none => .fail (.noBranch i.opcode.name)
    | some bits => if Operands.fitsSigned bits offset then .ok ⟨i.opcode, i.operands.setOffset (Int32.ofInt offset)⟩
      else .fail (.branchTooFar offset (Format.offsetName bits)) := by
  have hcheck (bits : Nat) (name : String) (j : Instruction ρ) :
      (Operands.checkOffset bits offset name >>= fun _ => pure j) =
        if Operands.fitsSigned bits offset then .ok j else .fail (.branchTooFar offset name) := by
    unfold Operands.checkOffset
    split <;> rfl
  obtain ⟨opcode, operands⟩ := i
  cases operands with
  | f10t | f20t | f21t | f22t | f30t | f31t => exact hcheck _ _ _
  | _ => rfl

end Instruction

namespace Addressed

open Operands

/-- The distance from a branch to an address. -/
def distance (i : Addressed ρ) (target : UInt32) : Int :=
  target.toNat - i.address.toNat

/-- The same branch with another offset. -/
def withDistance (i : Addressed ρ) (target : UInt32) : Addressed ρ :=
  ⟨i.address, ⟨i.instruction.opcode, i.instruction.operands.setOffset (Int32.ofInt (i.distance target))⟩⟩

/-- Points a branch to an address in place. The offset is stored once it is known to
fit. -/
def setTarget (target : UInt32) : ExceptT Error (StateM (Addressed ρ)) Unit := do
  let i ← get
  match i.instruction.format.offsetBits? with
  | none => throw ⟨.noBranch i.instruction.opcode.name, []⟩
  | some bits =>
    if fitsSigned bits (i.distance target) then set (i.withDistance target)
    else throw ⟨.branchTooFar (i.distance target) (Format.offsetName bits), []⟩

/-- What came of pointing a branch to an address, and the branch as it is then. -/
def pointed (i : Addressed ρ) (target : UInt32) : Result Unit × Addressed ρ :=
  (setTarget target).run.run i

variable {i j : Addressed ρ} {target : UInt32}

theorem withTarget_eq (i : Addressed ρ) (target : UInt32) : i.withTarget target =
    match i.instruction.format.offsetBits? with
    | none => .fail (.noBranch i.instruction.opcode.name)
    | some bits => if fitsSigned bits (i.distance target) then .ok (i.withDistance target)
      else .fail (.branchTooFar (i.distance target) (Format.offsetName bits)) := by
  rw [withTarget, Instruction.withOffset_eq]
  split
  · rfl
  · unfold distance
    split <;> rfl

/-- A branch can be pointed to an address if the distance fits the width of its
format. -/
theorem withTarget_eq_ok_iff : i.withTarget target = .ok j ↔ ∃ bits,
    i.instruction.format.offsetBits? = some bits ∧ fitsSigned bits (i.distance target) = true ∧
      j = i.withDistance target := by
  rw [withTarget_eq]
  cases i.instruction.format.offsetBits? with
  | none => exact ⟨fun h => (nomatch h), fun ⟨_, h, _⟩ => (nomatch h)⟩
  | some bits =>
    dsimp only
    constructor
    · intro h
      split at h
      · cases h
        exact ⟨bits, rfl, ‹_›, rfl⟩
      · cases h
    · rintro ⟨_, ⟨⟩, hfits, rfl⟩
      exact if_pos hfits

/-- In place, a branch becomes what it is made into elsewhere, or stays. -/
theorem pointed_eq (i : Addressed ρ) (target : UInt32) : i.pointed target =
    match i.withTarget target with
    | .ok j => (.ok (), j)
    | .error e => (.error e, i) := by
  have hget (next : Addressed ρ → ExceptT Error (StateM (Addressed ρ)) Unit) :
      (get >>= next).run.run i = (next i).run.run i := rfl
  rw [pointed, setTarget, hget, withTarget_eq]
  cases i.instruction.format.offsetBits? with
  | none => rfl
  | some bits =>
    dsimp only
    split <;> rfl

theorem withTarget_of_pointed (h : (i.pointed target).1 = .ok ()) : i.withTarget target = .ok (i.pointed target).2 := by
  rw [pointed_eq] at h ⊢
  cases hwith : i.withTarget target with
  | ok j => rfl
  | error e =>
    rw [hwith] at h
    cases h

/-- A branch that is refused stays as it is. -/
theorem pointed_of_error {e : Error} (h : (i.pointed target).1 = .error e) :
    i.withTarget target = .error e ∧ (i.pointed target).2 = i := by
  rw [pointed_eq] at h ⊢
  cases hwith : i.withTarget target with
  | ok j =>
    rw [hwith] at h
    cases h
  | error e' =>
    rw [hwith] at h
    cases h
    exact ⟨rfl, rfl⟩

theorem exists_of_pointed (h : (i.pointed target).1 = .ok ()) : ∃ bits,
    i.instruction.format.offsetBits? = some bits ∧ fitsSigned bits (i.distance target) = true ∧
      (i.pointed target).2 = i.withDistance target :=
  withTarget_eq_ok_iff.mp (withTarget_of_pointed h)

/-- A branch can be pointed to an address if it has an offset and the distance fits the
width of its format. -/
theorem pointed_eq_ok_iff : (i.pointed target).1 = .ok () ↔ ∃ offset bits, i.instruction.offset? = some offset ∧
    i.instruction.format.offsetBits? = some bits ∧ -(bitBound (bits - 1) : Int) ≤ target.toNat - i.address.toNat ∧
      target.toNat - i.address.toNat < (bitBound (bits - 1) : Int) := by
  have hoffset : i.instruction.offset?.isSome = i.instruction.format.offsetBits?.isSome := isSome_offset?
  constructor
  · intro h
    obtain ⟨bits, hbits, hfits, -⟩ := exists_of_pointed h
    rw [hbits, Option.isSome_some, Option.isSome_iff_exists] at hoffset
    obtain ⟨offset, hoffset⟩ := hoffset
    exact ⟨offset, bits, hoffset, hbits, fitsSigned_eq_true.mp hfits⟩
  · rintro ⟨offset, bits, -, hbits, hfits⟩
    rw [pointed_eq, withTarget_eq_ok_iff.mpr ⟨bits, hbits, fitsSigned_eq_true.mpr hfits, rfl⟩]

/-- A branch to `target` that is otherwise like the branch `i`. -/
structure Retargets (i : Addressed ρ) (target : UInt32) (j : Addressed ρ) : Prop where
  target : j.target? = some (target.toNat : Int)
  address : j.address = i.address
  opcode : j.instruction.opcode = i.instruction.opcode
  format : j.instruction.format = i.instruction.format
  /-- All other operands are the same. -/
  parts : { j.instruction.operands.parts with offset := none } = { i.instruction.operands.parts with offset := none }
  check : i.instruction.check = .ok () → j.instruction.check = .ok ()

theorem retargets_withDistance {bits : Nat} (hbits : i.instruction.format.offsetBits? = some bits)
    (hfits : fitsSigned bits (i.distance target) = true) : Retargets i target (i.withDistance target) where
  target := by
    have hoffset : (i.instruction.operands.setOffset (Int32.ofInt (i.distance target))).offset? = some _ :=
      offset?_setOffset hbits
    have hexact := toInt_ofInt_of_fitsSigned (Format.offsetBits?_le hbits) hfits
    show Option.map _ (i.instruction.operands.setOffset _).offset? = _
    rw [hoffset, Option.map_some, hexact]
    show some ((i.address.toNat : Int) + (target.toNat - i.address.toNat)) = _
    rw [add_sub_cancel]
  address := rfl
  opcode := rfl
  format := format_setOffset
  parts := parts_setOffset
  check h := by
    obtain ⟨hformat, hcheck⟩ := Instruction.check_eq_ok.mp h
    refine Instruction.check_eq_ok.mpr ⟨hformat.trans format_setOffset.symm, check_setOffset hcheck hbits ?_⟩
    rwa [toInt_ofInt_of_fitsSigned (Format.offsetBits?_le hbits) hfits]

theorem retargets_pointed (h : (i.pointed target).1 = .ok ()) : Retargets i target (i.pointed target).2 := by
  obtain ⟨bits, hbits, hfits, hj⟩ := exists_of_pointed h
  rw [hj]
  exact retargets_withDistance hbits hfits

/-! ## Branches in code -/

section code

variable {i : Addressed UInt32} {o : Opcodes}

/-- A valid branch can be written where its opcode exists. -/
theorem exists_encode_iff_of_offset {bits : Nat} (hbits : i.instruction.format.offsetBits? = some bits)
    (hcheck : i.instruction.check = .ok ()) :
    (∃ form, i.instruction.encode o = (form, .ok ())) ↔ (o.value? i.instruction.opcode).isSome := by
  obtain ⟨hshort, -, -⟩ := plain_of_offsetBits? hbits
  rw [Instruction.exists_encode_iff]
  exact ⟨fun h => h.value, fun h => ⟨hcheck, h, fun r hr => nomatch hshort ▸ hr⟩⟩

/-- A branch that has been written is read at its address as it was. -/
theorem on_decodeAddressed {bits : Nat} (hbits : i.instruction.format.offsetBits? = some bits)
    (hop : i.instruction.opcode ∈ Opcode.table) {form : List UInt8} {bytes : Bytes}
    (hform : i.instruction.encode o = (form, .ok ())) (hbytes : bytes.Holds (2 * i.address.toNat) form) :
    (Instruction.decodeAddressed o).on bytes (2 * i.address.toNat) = (.ok i, 2 * i.address.toNat + form.length) := by
  obtain ⟨-, hcount, hplain⟩ := plain_of_offsetBits? hbits
  have hread := Instruction.yields_decode Opcodes.Covers.rfl hop (hcount.symm ▸ by decide) hform
  have hsame : i.instruction.extended = i.instruction := by rw [Instruction.extended, hplain]
  rw [Instruction.decodeAddressed, Read.on_bind, Read.on_tell]
  dsimp only
  rw [Nat.mul_div_cancel_left _ (by decide), Read.on_bind, hread.within _ _ _ hbytes, hsame]
  dsimp only
  rw [Read.on_pure, UInt32.ofNat_toNat]

end code

/-- Pointing a branch to an address takes it exactly there or has no effect. It succeeds
if there is an offset and the distance fits the width that the format has for it; then
the branch goes to the address and is otherwise the same. A valid branch that was pointed
to an address can be written at the API levels that have its opcode, and is read where it
stands as a branch to that address. -/
theorem retargets_exactly (target : UInt32) :
    (∀ (ρ : Type) (i : Addressed ρ),
      ((i.pointed target).1 = .ok () ↔ ∃ offset bits, i.instruction.offset? = some offset ∧
        i.instruction.format.offsetBits? = some bits ∧
        -(bitBound (bits - 1) : Int) ≤ target.toNat - i.address.toNat ∧
        target.toNat - i.address.toNat < (bitBound (bits - 1) : Int)) ∧
      ((i.pointed target).1 = .ok () →
        i.withTarget target = .ok (i.pointed target).2 ∧ Retargets i target (i.pointed target).2) ∧
      ∀ e, (i.pointed target).1 = .error e → i.withTarget target = .error e ∧ (i.pointed target).2 = i) ∧
    ∀ (i : Addressed UInt32) (o : Opcodes), i.instruction.check = .ok () → (i.pointed target).1 = .ok () →
      ((∃ form, (i.pointed target).2.instruction.encode o = (form, .ok ())) ↔ (o.value? i.instruction.opcode).isSome) ∧
      (i.instruction.opcode ∈ Opcode.table → ∀ form bytes,
        (i.pointed target).2.instruction.encode o = (form, .ok ()) → bytes.Holds (2 * i.address.toNat) form →
        ∃ j, (Instruction.decodeAddressed o).on bytes (2 * i.address.toNat) = (.ok j, 2 * i.address.toNat + form.length) ∧
          j = (i.pointed target).2 ∧ j.target? = some (target.toNat : Int)) := by
  refine ⟨fun ρ i => ⟨pointed_eq_ok_iff, fun h => ⟨withTarget_of_pointed h, retargets_pointed h⟩,
    fun e h => pointed_of_error h⟩, fun i o hcheck h => ?_⟩
  obtain ⟨bits, hbits, -, -⟩ := exists_of_pointed h
  have hnew := retargets_pointed h
  have hbits : (i.pointed target).2.instruction.format.offsetBits? = some bits := hnew.format.symm ▸ hbits
  refine ⟨hnew.opcode ▸ exists_encode_iff_of_offset hbits (hnew.check hcheck),
    fun hop form bytes hform hbytes => ⟨_, ?_, rfl, hnew.target⟩⟩
  rw [← hnew.address] at hbytes ⊢
  exact on_decodeAddressed hbits (hnew.opcode.symm ▸ hop) hform hbytes

/-- A conditional branch at the address 5, forward at first. -/
def forward : Addressed UInt32 :=
  ⟨5, (Opcode.ofName? "if-eq").getD default, .f22t 1 2 4⟩

/-- The branch can be pointed back to the address 2, and is read as a branch to there;
it cannot be pointed to an address further away than 16 bits tell. -/
theorem retargets_exactly_back : forward.instruction.check = .ok () ∧ forward.instruction.opcode ∈ Opcode.table ∧
    (forward.pointed 2).1 = .ok () ∧ (forward.pointed 40000).2 = forward ∧
      ∃ form j, (forward.pointed 2).2.instruction.encode .standard = (form, .ok ()) ∧
        (Instruction.decodeAddressed .standard).on (List.replicate 10 0 ++ form).toArray 10 = (.ok j, 14) ∧
        j.target? = some 2 ∧ j.instruction.operands = .f22t 1 2 (-3) := by
  have hcheck : forward.instruction.check = .ok () := by decide +kernel
  have hop : forward.instruction.opcode ∈ Opcode.table := by decide +kernel
  have hpointed : (forward.pointed 2).1 = .ok () := by decide +kernel
  have hrefused : (forward.pointed 40000).1 = .fail (.branchTooFar 39995 "16-bit") := by decide +kernel
  obtain ⟨hencode, hdecode⟩ := (retargets_exactly 2).2 forward .standard hcheck hpointed
  obtain ⟨form, hform⟩ := hencode.mpr (by decide +kernel)
  have hlength : form.length = 4 := Instruction.length_of_encode hform
  obtain ⟨j, hj, hsame, htarget⟩ := hdecode hop form (List.replicate 10 0 ++ form).toArray hform
    ⟨List.replicate 10 0, [], (List.append_nil _).symm, rfl⟩
  rw [hlength] at hj
  exact ⟨hcheck, hop, hpointed, (((retargets_exactly 40000).1 _ forward).2.2 _ hrefused).2, form, j, hform, hj, htarget,
    hsame ▸ by decide +kernel⟩

end Addressed

end Dalvik
