import Dalvik.Reference

/-!
# Opcodes

An opcode has a name, a value that stands for it in code, a format, which says
how its operands are laid out, and the kinds of the references among them. Some
opcodes exist only up to an API level or from one on.
-/

namespace Dalvik

/-- The layouts of instructions. Where a name begins with a digit in the
format's own tables, that digit is the number of code units and the next the
number of registers. -/
inductive Format where
  | f10t
  | f10x
  | f11n
  | f11x
  | f12x
  | f20bc
  | f20t
  | f21c
  | f21ih
  | f21lh
  | f21s
  | f21t
  | f22b
  | f22c
  | f22cs
  | f22s
  | f22t
  | f22x
  | f23x
  | f30t
  | f31c
  | f31i
  | f31t
  | f32x
  | f35c
  | f35mi
  | f35ms
  | f3rc
  | f3rmi
  | f3rms
  | f45cc
  | f4rcc
  | f51l
  | packedSwitch
  | sparseSwitch
  | arrayData
  deriving DecidableEq, Repr, Hashable, Inhabited

namespace Format

/-- All formats. -/
def all : List Format :=
  [f10t, f10x, f11n, f11x, f12x, f20bc, f20t, f21c, f21ih, f21lh, f21s, f21t, f22b, f22c, f22cs, f22s,
    f22t, f22x, f23x, f30t, f31c, f31i, f31t, f32x, f35c, f35mi, f35ms, f3rc, f3rmi, f3rms, f45cc,
    f4rcc, f51l, packedSwitch, sparseSwitch, arrayData]

/-- The name of a format in messages. -/
def name : Format → String
  | f10t => "Format10t"
  | f10x => "Format10x"
  | f11n => "Format11n"
  | f11x => "Format11x"
  | f12x => "Format12x"
  | f20bc => "Format20bc"
  | f20t => "Format20t"
  | f21c => "Format21c"
  | f21ih => "Format21ih"
  | f21lh => "Format21lh"
  | f21s => "Format21s"
  | f21t => "Format21t"
  | f22b => "Format22b"
  | f22c => "Format22c"
  | f22cs => "Format22cs"
  | f22s => "Format22s"
  | f22t => "Format22t"
  | f22x => "Format22x"
  | f23x => "Format23x"
  | f30t => "Format30t"
  | f31c => "Format31c"
  | f31i => "Format31i"
  | f31t => "Format31t"
  | f32x => "Format32x"
  | f35c => "Format35c"
  | f35mi => "Format35mi"
  | f35ms => "Format35ms"
  | f3rc => "Format3rc"
  | f3rmi => "Format3rmi"
  | f3rms => "Format3rms"
  | f45cc => "Format45cc"
  | f4rcc => "Format4rcc"
  | f51l => "Format51l"
  | packedSwitch => "PackedSwitchPayload"
  | sparseSwitch => "SparseSwitchPayload"
  | arrayData => "ArrayPayload"

/-- The format with a given name. -/
def ofName? (name : String) : Option Format :=
  all.find? (·.name == name)

/-- The number of code units of an instruction, unless it depends on the
operands. -/
def codeUnits? : Format → Option Nat
  | f10t | f10x | f11n | f11x | f12x => some 1
  | f20bc | f20t | f21c | f21ih | f21lh | f21s | f21t | f22b | f22c | f22cs | f22s | f22t | f22x
  | f23x => some 2
  | f30t | f31c | f31i | f31t | f32x | f35c | f35mi | f35ms | f3rc | f3rmi | f3rms => some 3
  | f45cc | f4rcc => some 4
  | f51l => some 5
  | packedSwitch | sparseSwitch | arrayData => none

/-- Whether a format holds the data of another instruction. -/
def isPayload (f : Format) : Bool :=
  f.codeUnits?.isNone

end Format

/-- What is known of the effect of an opcode. -/
inductive OpcodeTrait where
  | canThrow
  | odexOnly
  | canContinue
  | setsResult
  | setsRegister
  | setsWideRegister
  | quickField
  | volatileField
  | staticField
  | jumbo
  | initializesReference
  deriving DecidableEq, Repr, Hashable

namespace OpcodeTrait

/-- The bit that stands for a trait in a set of them. -/
def bit : OpcodeTrait → Nat
  | canThrow => 0x1
  | odexOnly => 0x2
  | canContinue => 0x4
  | setsResult => 0x8
  | setsRegister => 0x10
  | setsWideRegister => 0x20
  | quickField => 0x40
  | volatileField => 0x80
  | staticField => 0x100
  | jumbo => 0x200
  | initializesReference => 0x400

end OpcodeTrait

/-- An operation of the virtual machine. -/
structure Opcode where
  name : String
  /-- The number that stands for it in code. -/
  value : Nat
  /-- The kind of its reference. -/
  kind : ReferenceKind
  format : Format
  traits : List OpcodeTrait
  /-- The kind of its second reference. -/
  secondKind : Option ReferenceKind := none
  /-- The first API level that has it. -/
  firstApi : Option Int := none
  /-- The last API level that has it. -/
  lastApi : Option Int := none
  deriving DecidableEq, Repr, Hashable, Inhabited

namespace Opcode

/-- Whether an API level has the opcode. -/
def existsAt (op : Opcode) (api : Int) : Bool :=
  op.firstApi.all (· ≤ api) && op.lastApi.all (api ≤ ·)

/-- The value of the opcode at an API level that has it. -/
def valueAt? (op : Opcode) (api : Int) : Option Nat :=
  if op.existsAt api then some op.value else none

/-- Whether the opcode has a trait. -/
def has (op : Opcode) (t : OpcodeTrait) : Bool :=
  t ∈ op.traits

/-- The bits of all traits. -/
def traitBits (op : Opcode) : Nat :=
  op.traits.foldr (fun t bits => t.bit + bits) 0

end Opcode

end Dalvik
