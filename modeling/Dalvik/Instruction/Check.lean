import Dalvik.Instruction.Basic

/-!
# Operands that fit

`Instruction.check` tells whether an instruction can be written: the format of
its operands is that of its opcode, and every register, literal, offset and
count fits its place.
-/

namespace Dalvik

namespace Operands

/-- A register of four bits. -/
def checkNibble (register : UInt16) : Result Unit :=
  if register.toNat > 0xf then .fail (.nibbleRegister register.toNat) else .ok ()

/-- A register of eight bits. -/
def checkByte (register : UInt16) : Result Unit :=
  if register.toNat > 0xff then .fail (.byteRegister register.toNat) else .ok ()

/-- At most five registers of four bits. -/
def checkList (registers : List UInt16) : Result Unit :=
  if registers.length > 5 then .fail (.registerListCount registers.length)
  else registers.forM checkNibble

/-- At most 255 registers from `start` on, none of them above 65535. -/
def checkRange (start count : UInt16) : Result Unit :=
  if count.toNat > 0xff then .fail (.registerRangeCount count.toNat)
  else if count.toNat > 0 ∧ start.toNat + count.toNat - 1 > 0xffff then
    .fail (.registerRangeEnd start.toNat count.toNat)
  else .ok ()

/-- Whether `n` is a signed number of `bits` bits. -/
def fitsSigned (bits : Nat) (n : Int) : Bool :=
  -(bitBound (bits - 1) : Nat) ≤ n && n < (bitBound (bits - 1) : Nat)

/-- Whether `n` is an unsigned number of `bits` bits. -/
def fitsUnsigned (bits : Nat) (n : Int) : Bool :=
  0 ≤ n && n < (bitBound bits : Nat)

/-- A literal of `bits` bits. -/
def checkLiteral (bits : Nat) (literal : Int32) : Result Unit :=
  if fitsSigned bits literal.toInt then .ok ()
  else .fail (.literalTooWide literal.toInt s!"{bits}-bit")

/-- A branch offset of `bits` bits, in a message named `name`. -/
def checkOffset (bits : Nat) (offset : Int) (name : String) : Result Unit :=
  if fitsSigned bits offset then .ok () else .fail (.branchTooFar offset name)

/-- A literal whose low bits are not written. -/
def checkHigh (bits : Nat) (literal : Int) : Result Unit :=
  if literal % (bitBound bits : Nat) ≠ 0 then .fail (.literalLowBits literal bits) else .ok ()

/-- Whether keys are in strictly ascending order. -/
def ascending : List (Int32 × Int32) → Bool
  | (k, _) :: (l, t) :: rest => k.toInt < l.toInt && ascending ((l, t) :: rest)
  | _ => true

/-- Whether an element of an array fits its width, signed or unsigned. -/
def fitsWidth (width : UInt16) (element : Int64) : Bool :=
  width = 8 || fitsSigned (8 * width.toNat) element.toInt || fitsUnsigned (8 * width.toNat) element.toInt

/-- Elements of one, two, four or eight bytes. -/
def checkElements (width : UInt16) (elements : List Int64) : Result Unit :=
  if width ∈ [1, 2, 4, 8] then
    match elements.find? fun e => !fitsWidth width e with
    | some e => .fail (.elementTooWide e.toInt width.toNat)
    | none => .ok ()
  else .fail (.elementWidth width.toNat)

/-- Whether the operands fit the places that their format has for them. -/
def check {ρ : Type} : Operands ρ → Result Unit
  | f10t offset => checkOffset 8 offset.toInt "10t"
  | f10x => .ok ()
  | f11n a literal => do
    checkNibble a
    if -8 ≤ literal.toInt ∧ literal.toInt ≤ 7 then .ok () else .fail (.nibbleLiteral literal.toInt)
  | f11x a => checkByte a
  | f12x a b => do
    checkNibble a
    checkNibble b
  | f20bc error kind _ => do
    if error.toNat > 0x3f then .fail (.verificationError error.toNat)
    else kind.verificationBits.map fun _ => ()
  | f20t offset => checkOffset 16 offset.toInt "20t"
  | f21c a _ => checkByte a
  | f21ih a literal => do
    checkByte a
    checkHigh 16 literal.toInt
  | f21lh a literal => do
    checkByte a
    checkHigh 48 literal.toInt
  | f21s a literal => do
    checkByte a
    checkLiteral 16 literal
  | f21t a offset => do
    checkByte a
    checkOffset 16 offset.toInt "21t"
  | f22b a b literal => do
    checkByte a
    checkByte b
    checkLiteral 8 literal
  | f22c a b _ => do
    checkNibble a
    checkNibble b
  | f22cs a b _ => do
    checkNibble a
    checkNibble b
  | f22s a b literal => do
    checkNibble a
    checkNibble b
    checkLiteral 16 literal
  | f22t a b offset => do
    checkNibble a
    checkNibble b
    checkOffset 16 offset.toInt "22t"
  | f22x a _ => checkByte a
  | f23x a b c => do
    checkByte a
    checkByte b
    checkByte c
  | f30t _ => .ok ()
  | f31c a _ => checkByte a
  | f31i a _ => checkByte a
  | f31t a _ => checkByte a
  | f32x _ _ => .ok ()
  | f35c registers _ => checkList registers
  | f35mi registers _ => checkList registers
  | f35ms registers _ => checkList registers
  | f3rc start count _ => checkRange start count
  | f3rmi start count _ => checkRange start count
  | f3rms start count _ => checkRange start count
  | f45cc registers _ _ => checkList registers
  | f4rcc start count _ _ => checkRange start count
  | f51l a _ => checkByte a
  | packedSwitch _ targets =>
    if targets.length > 0xffff then .fail (.tooManyTargets targets.length) else .ok ()
  | sparseSwitch cases =>
    if cases.length > 0xffff then .fail (.tooManyKeys cases.length)
    else if ascending cases then .ok ()
    else .fail .keysUnsorted
  | arrayData width elements => checkElements width elements

end Operands

namespace Instruction

variable {ρ : Type}

/-- Whether an instruction can be written. -/
def check (i : Instruction ρ) : Result Unit :=
  if i.opcode.format ≠ i.format then
    .fail (.formatMismatch i.opcode.name i.opcode.format.name i.format.name)
  else i.operands.check.within (.opcode i.opcode.name)

/-- The same instruction with another branch offset, if its format has one
that is wide enough. -/
def withOffset (i : Instruction ρ) (offset : Int) : Result (Instruction ρ) :=
  let new := Int32.ofInt offset
  match i.operands with
  | .f10t _ => do
    Operands.checkOffset 8 offset "10t"
    return ⟨i.opcode, .f10t new⟩
  | .f20t _ => do
    Operands.checkOffset 16 offset "16-bit"
    return ⟨i.opcode, .f20t new⟩
  | .f21t a _ => do
    Operands.checkOffset 16 offset "16-bit"
    return ⟨i.opcode, .f21t a new⟩
  | .f22t a b _ => do
    Operands.checkOffset 16 offset "16-bit"
    return ⟨i.opcode, .f22t a b new⟩
  | .f30t _ => do
    Operands.checkOffset 32 offset "32-bit"
    return ⟨i.opcode, .f30t new⟩
  | .f31t a _ => do
    Operands.checkOffset 32 offset "32-bit"
    return ⟨i.opcode, .f31t a new⟩
  | _ => .fail (.noBranch i.opcode.name)

end Instruction

end Dalvik
