/-!
# UTF-16 code units

The files order and count strings by UTF-16 code units. `encode` gives the
units of a string. `decode?` and `decodeLossy` read units back: a high
surrogate that is followed by a low one stands for a supplementary character.
Any other surrogate stands for nothing, and `decodeLossy` replaces it by U+FFFD.
-/

namespace Dalvik.Utf16

/-- The first unit of the surrogate pair of a supplementary character. -/
def highSurrogate (c : Nat) : UInt16 :=
  UInt16.ofNat (0xd800 + (c - 0x10000) / 0x400)

/-- The second unit of the surrogate pair of a supplementary character. -/
def lowSurrogate (c : Nat) : UInt16 :=
  UInt16.ofNat (0xdc00 + (c - 0x10000) % 0x400)

/-- The one or two units of a character. -/
def ofChar (c : Char) : List UInt16 :=
  if c.toNat < 0x10000 then [UInt16.ofNat c.toNat] else [highSurrogate c.toNat, lowSurrogate c.toNat]

/-- The code units of a string. -/
def encode (s : String) : List UInt16 :=
  s.toList.flatMap ofChar

/-- The number of code units of a string. -/
def length (s : String) : Nat :=
  s.toList.foldl (fun n c => if c.toNat < 0x10000 then n + 1 else n + 2) 0

/-- A unit that opens a surrogate pair. -/
def isHigh (u : UInt16) : Bool :=
  0xd800 ≤ u && u < 0xdc00

/-- A unit that closes a surrogate pair. -/
def isLow (u : UInt16) : Bool :=
  0xdc00 ≤ u && u < 0xe000

/-- The character that stands for what cannot be decoded. -/
def replacement : Char := Char.ofNat 0xfffd

/-- The supplementary character of a surrogate pair. -/
def ofPair (high low : UInt16) : Char :=
  Char.ofNat (0x10000 + (high.toNat - 0xd800) * 0x400 + (low.toNat - 0xdc00))

/-- Reads units as characters, unless there is a surrogate outside a pair. -/
def decode? : List UInt16 → Option (List Char)
  | [] => some []
  | [u] => if isHigh u || isLow u then none else some [Char.ofNat u.toNat]
  | u :: v :: rest =>
    if isHigh u && isLow v then (decode? rest).map (ofPair u v :: ·)
    else if isHigh u || isLow u then none
    else (decode? (v :: rest)).map (Char.ofNat u.toNat :: ·)

/-- Reads units as characters. Each surrogate outside a pair becomes
`replacement`. -/
def decodeLossy : List UInt16 → List Char
  | [] => []
  | [u] => [if isHigh u || isLow u then replacement else Char.ofNat u.toNat]
  | u :: v :: rest =>
    if isHigh u && isLow v then ofPair u v :: decodeLossy rest
    else if isHigh u || isLow u then replacement :: decodeLossy (v :: rest)
    else Char.ofNat u.toNat :: decodeLossy (v :: rest)

/-- The order of strings by their code units, in which supplementary
characters come before U+E000. -/
def compare (a b : String) : Ordering :=
  List.compareLex Ord.compare (encode a) (encode b)

end Dalvik.Utf16
