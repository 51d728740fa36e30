import Dalvik.Instruction.Check
import Dalvik.Instruction.Decode
import Dalvik.Text.Numeral

/-!
# Branches

A branch at an address goes to the address that lies its offset away.
-/

namespace Dalvik.Addressed

variable {ρ : Type}

/-- The address that an instruction branches to. -/
def target? (i : Addressed ρ) : Option Int :=
  i.instruction.offset?.map fun offset => i.address.toNat + offset.toInt

/-- The same branch to another address. -/
def withTarget (i : Addressed ρ) (target : UInt32) : Result (Addressed ρ) :=
  (i.instruction.withOffset (target.toNat - i.address.toNat)).map fun instruction => { i with instruction }

/-- What the label of a branch target begins with. -/
def labelStart? (i : Addressed ρ) : Option String :=
  match i.instruction.format with
  | .f10t | .f20t | .f30t => some ":goto_"
  | .f21t | .f22t => some ":cond_"
  | .f31t =>
    some (match i.instruction.opcode.name with
      | "packed-switch" => ":pswitch_data_"
      | "sparse-switch" => ":sswitch_data_"
      | _ => ":array_")
  | _ => none

/-- The label of the branch target. A negative address is shown in two's
complement of 64 bits. -/
def label? (i : Addressed ρ) : Option String := do
  let start ← i.labelStart?
  let target ← i.target?
  return start ++ Text.hex (target % (bitBound 64 : Nat)).toNat

end Dalvik.Addressed
