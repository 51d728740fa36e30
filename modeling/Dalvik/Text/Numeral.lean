/-!
# Numerals in messages

Offsets and flags are shown in hexadecimal, in lower case and without leading
zeros, except where a fixed number of digits is asked for.
-/

namespace Dalvik.Text

/-- The hexadecimal digits of `n`, without leading zeros. -/
def hex (n : Nat) : String :=
  String.ofList (Nat.toDigits 16 n)

/-- The digits `ds` with zeros in front, up to `width` of them. -/
def zeroPadded (width : Nat) (ds : List Char) : String :=
  String.ofList (List.replicate (width - ds.length) '0' ++ ds)

/-- At least two hexadecimal digits. -/
def hexByte (n : Nat) : String :=
  zeroPadded 2 (Nat.toDigits 16 n)

/-- At least three decimal digits, as a file's format version is written. -/
def threeDigits (n : Nat) : String :=
  zeroPadded 3 (Nat.toDigits 10 n)

/-- Items with a comma between them, in brackets. -/
def bracketed (items : List String) : String :=
  "[" ++ String.intercalate ", " items ++ "]"

end Dalvik.Text
