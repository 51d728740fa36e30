import Dalvik.Text.Numeral

/-!
# Access flags

The flags of classes, fields and methods. All 32 bits are kept, also those
without a name. Two bits have a second name for methods, which is not shown.
-/

namespace Dalvik

/-- A set of flags, given by its bits. -/
structure AccessFlags where
  bits : UInt32
  deriving DecidableEq, Repr, Hashable, Inhabited

namespace AccessFlags

/-- The names of the flags, each with its bit. -/
def names : List (String × UInt32) :=
  [("PUBLIC", 0x1), ("PRIVATE", 0x2), ("PROTECTED", 0x4), ("STATIC", 0x8), ("FINAL", 0x10),
    ("SYNCHRONIZED", 0x20), ("VOLATILE", 0x40), ("TRANSIENT", 0x80), ("NATIVE", 0x100),
    ("INTERFACE", 0x200), ("ABSTRACT", 0x400), ("STRICT", 0x800), ("SYNTHETIC", 0x1000),
    ("ANNOTATION", 0x2000), ("ENUM", 0x4000), ("CONSTRUCTOR", 0x10000),
    ("DECLARED_SYNCHRONIZED", 0x20000)]

/-- The bit of what is private. -/
def privateBit : UInt32 := 0x2

/-- The bit of what is static. -/
def staticBit : UInt32 := 0x8

/-- The bit of constructors. -/
def constructorBit : UInt32 := 0x10000

/-- Whether a member is static. -/
def isStatic (f : AccessFlags) : Bool :=
  f.bits &&& staticBit != 0

/-- Whether a method is called directly: static and private methods and
constructors are. -/
def isDirect (f : AccessFlags) : Bool :=
  f.bits &&& (staticBit ||| privateBit ||| constructorBit) != 0

/-- The names of the bits that are set, and the rest in hexadecimal. -/
def showBits (names : List (String × UInt32)) (bits : UInt32) : String :=
  let named := names.filter fun (_, bit) => bits &&& bit != 0
  let rest := names.foldl (fun left (_, bit) => left &&& ~~~bit) bits
  let unnamed := if rest = 0 then [] else ["0x" ++ Text.hex rest.toNat]
  String.intercalate " | " (named.map (·.1) ++ unnamed)

/-- The names of the flags. -/
def text (f : AccessFlags) : String :=
  showBits names f.bits

end AccessFlags

end Dalvik
