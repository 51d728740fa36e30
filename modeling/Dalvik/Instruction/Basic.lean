import Dalvik.Opcode.Table

/-!
# Instructions

An instruction is an opcode with its operands. There is one shape of operands
for each format. The references among them are indices in code and resolved
references elsewhere, so their type is a parameter.

An instruction may be given operands of a format that its opcode does not have,
or operands that are too wide for their place; `Instruction.check` tells.
-/

namespace Dalvik

/-- Operands, by format. Registers are `a`, `b` and `c` in the order in which
they are written, offsets are in code units from the instruction. -/
inductive Operands (ρ : Type) where
  | f10t (offset : Int32)
  | f10x
  | f11n (a : UInt16) (literal : Int32)
  | f11x (a : UInt16)
  | f12x (a b : UInt16)
  | f20bc (error : UInt8) (kind : ReferenceKind) (reference : ρ)
  | f20t (offset : Int32)
  | f21c (a : UInt16) (reference : ρ)
  /-- Only the high 16 bits of the literal are written. -/
  | f21ih (a : UInt16) (literal : Int32)
  /-- Only the high 16 bits of the literal are written. -/
  | f21lh (a : UInt16) (literal : Int64)
  | f21s (a : UInt16) (literal : Int32)
  | f21t (a : UInt16) (offset : Int32)
  | f22b (a b : UInt16) (literal : Int32)
  | f22c (a b : UInt16) (reference : ρ)
  | f22cs (a b : UInt16) (fieldOffset : UInt16)
  | f22s (a b : UInt16) (literal : Int32)
  | f22t (a b : UInt16) (offset : Int32)
  | f22x (a b : UInt16)
  | f23x (a b c : UInt16)
  | f30t (offset : Int32)
  | f31c (a : UInt16) (reference : ρ)
  | f31i (a : UInt16) (literal : Int32)
  | f31t (a : UInt16) (offset : Int32)
  | f32x (a b : UInt16)
  | f35c (registers : List UInt16) (reference : ρ)
  | f35mi (registers : List UInt16) (index : UInt16)
  | f35ms (registers : List UInt16) (index : UInt16)
  | f3rc (start count : UInt16) (reference : ρ)
  | f3rmi (start count : UInt16) (index : UInt16)
  | f3rms (start count : UInt16) (index : UInt16)
  | f45cc (registers : List UInt16) (reference proto : ρ)
  | f4rcc (start count : UInt16) (reference proto : ρ)
  | f51l (a : UInt16) (literal : Int64)
  | packedSwitch (firstKey : Int32) (targets : List Int32)
  /-- Keys with their targets. -/
  | sparseSwitch (cases : List (Int32 × Int32))
  | arrayData (width : UInt16) (elements : List Int64)
  deriving DecidableEq, Repr, Hashable

/-- An opcode with operands. -/
structure Instruction (ρ : Type) where
  opcode : Opcode
  operands : Operands ρ
  deriving DecidableEq, Repr, Hashable

variable {ρ σ : Type}

namespace Operands

/-- The format whose operands these are. -/
def format : Operands ρ → Format
  | f10t .. => .f10t
  | f10x => .f10x
  | f11n .. => .f11n
  | f11x .. => .f11x
  | f12x .. => .f12x
  | f20bc .. => .f20bc
  | f20t .. => .f20t
  | f21c .. => .f21c
  | f21ih .. => .f21ih
  | f21lh .. => .f21lh
  | f21s .. => .f21s
  | f21t .. => .f21t
  | f22b .. => .f22b
  | f22c .. => .f22c
  | f22cs .. => .f22cs
  | f22s .. => .f22s
  | f22t .. => .f22t
  | f22x .. => .f22x
  | f23x .. => .f23x
  | f30t .. => .f30t
  | f31c .. => .f31c
  | f31i .. => .f31i
  | f31t .. => .f31t
  | f32x .. => .f32x
  | f35c .. => .f35c
  | f35mi .. => .f35mi
  | f35ms .. => .f35ms
  | f3rc .. => .f3rc
  | f3rmi .. => .f3rmi
  | f3rms .. => .f3rms
  | f45cc .. => .f45cc
  | f4rcc .. => .f4rcc
  | f51l .. => .f51l
  | packedSwitch .. => .packedSwitch
  | sparseSwitch .. => .sparseSwitch
  | arrayData .. => .arrayData

/-- The number of code units of an instruction with these operands. -/
def codeUnits : Operands ρ → Nat
  | packedSwitch _ targets => 4 + targets.length * 2
  | sparseSwitch cases => 2 + cases.length * 4
  | arrayData width elements => 4 + (width.toNat * elements.length + 1) / 2
  | operands => operands.format.codeUnits?.getD 0

/-- The branch offset, for the formats that have one. -/
def offset? : Operands ρ → Option Int32
  | f10t offset | f20t offset | f21t _ offset | f22t _ _ offset | f30t offset | f31t _ offset => some offset
  | _ => none

end Operands

namespace Instruction

/-- The format of the operands, whatever the opcode. -/
def format (i : Instruction ρ) : Format :=
  i.operands.format

/-- The number of code units. -/
def codeUnits (i : Instruction ρ) : Nat :=
  i.operands.codeUnits

/-- The branch offset in code units, for the formats that have one. -/
def offset? (i : Instruction ρ) : Option Int32 :=
  i.operands.offset?

/-- The references with the kinds that are expected in their places, in the
order in which they are written. -/
def slots (i : Instruction ρ) : List (ReferenceKind × ρ) :=
  match i.operands with
  | .f20bc _ kind reference => [(kind, reference)]
  | .f21c _ reference | .f22c _ _ reference | .f31c _ reference | .f35c _ reference
  | .f3rc _ _ reference => [(i.opcode.kind, reference)]
  | .f45cc _ reference proto | .f4rcc _ _ reference proto =>
    [(i.opcode.kind, reference), (i.opcode.secondKind.getD .proto, proto)]
  | _ => []

/-- The references, in the order in which they are written. -/
def references (i : Instruction ρ) : List ρ :=
  i.slots.map (·.2)

/-- Replaces every reference by what `f` makes of it and of the kind that is
expected in its place. -/
def mapReferences {m : Type → Type} [Monad m] (i : Instruction ρ) (f : ReferenceKind → ρ → m σ) :
    m (Instruction σ) :=
  let kind := i.opcode.kind
  let second := i.opcode.secondKind.getD .proto
  let make (operands : Operands σ) : m (Instruction σ) := pure ⟨i.opcode, operands⟩
  match i.operands with
  | .f10t offset => make (.f10t offset)
  | .f10x => make .f10x
  | .f11n a literal => make (.f11n a literal)
  | .f11x a => make (.f11x a)
  | .f12x a b => make (.f12x a b)
  | .f20bc error kind reference => do make (.f20bc error kind (← f kind reference))
  | .f20t offset => make (.f20t offset)
  | .f21c a reference => do make (.f21c a (← f kind reference))
  | .f21ih a literal => make (.f21ih a literal)
  | .f21lh a literal => make (.f21lh a literal)
  | .f21s a literal => make (.f21s a literal)
  | .f21t a offset => make (.f21t a offset)
  | .f22b a b literal => make (.f22b a b literal)
  | .f22c a b reference => do make (.f22c a b (← f kind reference))
  | .f22cs a b fieldOffset => make (.f22cs a b fieldOffset)
  | .f22s a b literal => make (.f22s a b literal)
  | .f22t a b offset => make (.f22t a b offset)
  | .f22x a b => make (.f22x a b)
  | .f23x a b c => make (.f23x a b c)
  | .f30t offset => make (.f30t offset)
  | .f31c a reference => do make (.f31c a (← f kind reference))
  | .f31i a literal => make (.f31i a literal)
  | .f31t a offset => make (.f31t a offset)
  | .f32x a b => make (.f32x a b)
  | .f35c registers reference => do make (.f35c registers (← f kind reference))
  | .f35mi registers index => make (.f35mi registers index)
  | .f35ms registers index => make (.f35ms registers index)
  | .f3rc start count reference => do make (.f3rc start count (← f kind reference))
  | .f3rmi start count index => make (.f3rmi start count index)
  | .f3rms start count index => make (.f3rms start count index)
  | .f45cc registers reference proto => do
    let reference ← f kind reference
    let proto ← f second proto
    make (.f45cc registers reference proto)
  | .f4rcc start count reference proto => do
    let reference ← f kind reference
    let proto ← f second proto
    make (.f4rcc start count reference proto)
  | .f51l a literal => make (.f51l a literal)
  | .packedSwitch firstKey targets => make (.packedSwitch firstKey targets)
  | .sparseSwitch cases => make (.sparseSwitch cases)
  | .arrayData width elements => make (.arrayData width elements)

/-- A number with its sign in front. -/
def signed (n : Int) : String :=
  if n < 0 then toString n else "+" ++ toString n

/-- The name of the opcode, the references as `shown`, and the branch
offset. -/
def text (shown : ρ → String) (i : Instruction ρ) : String :=
  i.opcode.name ++ String.join (i.references.map fun r => " " ++ shown r) ++
    match i.offset? with
    | some offset => " " ++ signed offset.toInt
    | none => ""

end Instruction

end Dalvik
