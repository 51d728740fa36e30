import Dalvik.Layout.Basic

/-!
# The file header

The header stands at the start of the file. It names the version of the
format, holds two check values over the rest of the file, and says where each
section begins and how long it is.
-/

namespace Dalvik

/-- The size and the offset of a section; both are zero if it is empty. -/
structure Section where
  size : UInt32 := 0
  offset : UInt32 := 0
  deriving DecidableEq, Repr, Inhabited

instance : Layout Section where
  read := return { size := ← Read.uint, offset := ← Read.uint }
  write s := Write.uint s.size ++ Write.uint s.offset

/-- The header of a file. -/
structure Header where
  magic : Vector UInt8 8
  checksum : UInt32
  signature : Vector UInt8 20
  fileSize : UInt32
  headerSize : UInt32
  endianTag : UInt32
  link : Section
  mapOffset : UInt32
  stringIds : Section
  typeIds : Section
  protoIds : Section
  fieldIds : Section
  methodIds : Section
  classDefs : Section
  data : Section
  deriving DecidableEq, Repr

namespace Header

/-- The number of bytes of a header. -/
def byteSize : Nat := 0x70

/-- The tag of a file with the lowest byte first. -/
def littleEndianTag : UInt32 := 0x12345678

/-- The tag of a file with the highest byte first, read the other way. -/
def bigEndianTag : UInt32 := 0x78563412

/-- The first bytes of every file. -/
def magicStart : List UInt8 := [0x64, 0x65, 0x78, 0x0a]

/-- The ASCII digit of the last place of `n`. -/
def digit (n : Nat) : UInt8 :=
  UInt8.ofNat (0x30 + n % 10)

/-- The magic of a version: its last three digits and a zero byte follow the
common start. -/
def magicOf (version : Nat) : Vector UInt8 8 :=
  #v[0x64, 0x65, 0x78, 0x0a, digit (version / 100), digit (version / 10), digit version, 0]

/-- Whether a byte is an ASCII digit. -/
def isDigit (b : UInt8) : Bool :=
  0x30 ≤ b.toNat && b.toNat ≤ 0x39

/-- The version that the magic names. -/
def version (h : Header) : Result Nat :=
  let digits := (h.magic.toList.drop 4).take 3
  if digits.all isDigit && h.magic[7] == 0 then
    .ok (digits.foldl (fun n d => 10 * n + (d.toNat - 0x30)) 0)
  else .fail (.magicVersion h.magic.toList)

/-- Reads a header. The fields are checked once all of them are read, except
for the start of the magic. -/
def read : Read Header := do
  if (← Read.remaining) < byteSize then Read.fail .headerTooShort
  let magic ← Read.bytes 8
  if magic.toList.take 4 ≠ magicStart then Read.fail .magicUnknown
  let checksum ← Read.uint
  let signature ← Read.bytes 20
  let header : Header := {
    magic, checksum, signature
    fileSize := ← Read.uint
    headerSize := ← Read.uint
    endianTag := ← Read.uint
    link := ← Layout.read
    mapOffset := ← Read.uint
    stringIds := ← Layout.read
    typeIds := ← Layout.read
    protoIds := ← Layout.read
    fieldIds := ← Layout.read
    methodIds := ← Layout.read
    classDefs := ← Layout.read
    data := ← Layout.read }
  if header.endianTag = bigEndianTag then Read.fail .bigEndian
  if header.endianTag ≠ littleEndianTag then Read.fail (.endianTag header.endianTag.toNat)
  if header.headerSize.toNat < byteSize then
    Read.fail (.headerSizeTooSmall header.headerSize.toNat byteSize)
  return header

/-- The bytes of a header. -/
def write (h : Header) : List UInt8 :=
  h.magic.toList ++ Write.uint h.checksum ++ h.signature.toList ++ Write.uint h.fileSize ++
    Write.uint h.headerSize ++ Write.uint h.endianTag ++ Layout.write h.link ++
    Write.uint h.mapOffset ++ Layout.write h.stringIds ++ Layout.write h.typeIds ++
    Layout.write h.protoIds ++ Layout.write h.fieldIds ++ Layout.write h.methodIds ++
    Layout.write h.classDefs ++ Layout.write h.data

instance : Layout Header where
  read := read
  write := write

end Header

end Dalvik
