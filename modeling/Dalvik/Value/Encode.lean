import Dalvik.Reference
import Dalvik.Write

/-!
# Written forms of values

A value is written as a head byte, with its tag and the number of bytes that
follow, and then those bytes: numbers and indices in as few bytes as they
need. The elements of an annotation are written in the order of the indices of
their names.
-/

namespace Dalvik.Value

/-- The fewest bytes that hold a signed number, up to eight. -/
def signedSize (n : Int) : Nat :=
  ([1, 2, 3, 4, 5, 6, 7].find? fun k => -(byteBound k / 2 : Nat) ≤ n && n < (byteBound k / 2 : Nat)).getD 8

/-- The fewest bytes that hold an unsigned number, up to eight. -/
def unsignedSize (n : Nat) : Nat :=
  ([1, 2, 3, 4, 5, 6, 7].find? fun k => n < byteBound k).getD 8

/-- The fewest high bytes of a number of `width` bytes that leave out only
zeros. -/
def rightSize (n width : Nat) : Nat :=
  ((List.range' 1 (width - 1)).find? fun k => n % byteBound (width - k) = 0).getD width

/-- The byte in front of the `size` bytes of a value. -/
def head (tag : UInt8) (size : Nat) : UInt8 :=
  UInt8.ofNat (tag.toNat + 0x20 * (size - 1))

/-- A signed number with its head. -/
def writeSigned (tag : UInt8) (n : Int) : List UInt8 :=
  let size := signedSize n
  head tag size :: LittleEndian.encode size (n % (byteBound size : Nat)).toNat

/-- An unsigned number with its head. -/
def writeUnsigned (tag : UInt8) (n : Nat) : List UInt8 :=
  let size := unsignedSize n
  head tag size :: LittleEndian.encode size n

/-- A number of `width` bytes without its low zero bytes, with its head. -/
def writeRight (tag : UInt8) (n width : Nat) : List UInt8 :=
  let size := rightSize n width
  head tag size :: LittleEndian.encode size (n / byteBound (width - size))

/-- The index of a reference, with its head. -/
def writeIndex (tag : UInt8) (index : Result UInt32) : Result (List UInt8) :=
  index.map fun i => writeUnsigned tag i.toNat

/-- The body of an annotation, from the written forms of its elements. The
index of every name is looked up before the first element is written. -/
def writeBody (n : ValueNumbering) (type : String) (forms : List (String × Result (List UInt8))) :
    Result (List UInt8) := do
  let typeIndex ← n.type type
  let indexed ← forms.mapM fun (name, form) => do return (← n.string name, form)
  let sorted := indexed.mergeSort fun a b => a.1 ≤ b.1
  let parts ← sorted.mapM fun (index, form) => do return Write.uleb128 index ++ (← form)
  return Write.uleb128 typeIndex ++ Write.uleb128 (UInt32.ofNat forms.length) ++ parts.flatten

mutual

/-- The bytes of a value. -/
def encode (n : ValueNumbering) : Value → Result (List UInt8)
  | byte v => .ok [0x00, v.toUInt8]
  | short v => .ok (writeSigned 0x02 v.toInt)
  | char v => .ok (writeUnsigned 0x03 v.toNat)
  | int v => .ok (writeSigned 0x04 v.toInt)
  | long v => .ok (writeSigned 0x06 v.toInt)
  | float bits => .ok (writeRight 0x10 bits.toNat 4)
  | double bits => .ok (writeRight 0x11 bits.toNat 8)
  | proto p => writeIndex 0x15 (n.proto p)
  | handle h => writeIndex 0x16 (n.handle h)
  | string s => writeIndex 0x17 (n.string s)
  | type d => writeIndex 0x18 (n.type d)
  | field f => writeIndex 0x19 (n.field f)
  | method m => writeIndex 0x1a (n.method m)
  | enum f => writeIndex 0x1b (n.field f)
  | array values => do
    let body ← encodeEach n values
    return 0x1c :: Write.uleb128 (UInt32.ofNat values.length) ++ body
  | nested t elements => do
    let body ← writeBody n t (elementForms n elements)
    return 0x1d :: body
  | null => .ok [0x1e]
  | boolean b => .ok [if b then 0x3f else 0x1f]
termination_by structural v => v

/-- The bytes of values one after the other. -/
def encodeEach (n : ValueNumbering) : List Value → Result (List UInt8)
  | [] => .ok []
  | v :: vs => do
    let first ← v.encode n
    return first ++ (← encodeEach n vs)
termination_by structural vs => vs

/-- The names of elements with the bytes of their values. -/
def elementForms (n : ValueNumbering) : List (String × Value) → List (String × Result (List UInt8))
  | [] => []
  | (name, v) :: vs => (name, v.encode n) :: elementForms n vs
termination_by structural vs => vs

end

/-- The bytes of a list of values with their number. -/
def encodeArray (n : ValueNumbering) (values : List Value) : Result (List UInt8) := do
  return Write.uleb128 (UInt32.ofNat values.length) ++ (← encodeEach n values)

/-- The bytes of the body of an annotation. -/
def encodeBody (n : ValueNumbering) (type : String) (elements : Elements) : Result (List UInt8) :=
  writeBody n type (elementForms n elements)

end Dalvik.Value
