import Dalvik.Leb128
import Dalvik.LittleEndian
import Dalvik.Text.Mutf8

/-!
# Written forms of the basic types

Each function gives the bytes of one value; the functions bear the names that
the file format gives to its types.
-/

namespace Dalvik.Write

/-- An unsigned number of one byte. -/
def ubyte (v : UInt8) : List UInt8 := [v]

/-- An unsigned number of two bytes. -/
def ushort (v : UInt16) : List UInt8 := LittleEndian.encode 2 v.toNat

/-- A signed number of two bytes. -/
def short (v : Int16) : List UInt8 := ushort v.toUInt16

/-- An unsigned number of four bytes. -/
def uint (v : UInt32) : List UInt8 := LittleEndian.encode 4 v.toNat

/-- A signed number of four bytes. -/
def int (v : Int32) : List UInt8 := uint v.toUInt32

/-- An unsigned number of eight bytes. -/
def ulong (v : UInt64) : List UInt8 := LittleEndian.encode 8 v.toNat

/-- A signed number of eight bytes. -/
def long (v : Int64) : List UInt8 := ulong v.toUInt64

/-- An unsigned LEB128 number. -/
def uleb128 (v : UInt32) : List UInt8 := Leb128.encodeUnsigned v

/-- A LEB128 number that is written as its successor. -/
def uleb128p1 (v : Int32) : List UInt8 := Leb128.encodeSuccessor v

/-- A signed LEB128 number. -/
def sleb128 (v : Int32) : List UInt8 := Leb128.encodeSigned v

/-- The low `size` bytes of a number. -/
def sized (v : UInt64) (size : Nat) : List UInt8 := LittleEndian.encode size v.toNat

/-- String data: the number of UTF-16 units, then Modified UTF-8 and a zero
byte. -/
def stringData (s : String) : List UInt8 :=
  uleb128 (UInt32.ofNat (Utf16.length s)) ++ Mutf8.encode s ++ [0]

end Dalvik.Write
