import Dalvik.Text.Utf16

/-!
# Modified UTF-8

String data is kept as a sequence of UTF-16 code units, each written on its
own in one to three bytes. A zero unit takes two bytes, so that no zero byte
occurs inside a string, and a supplementary character takes two surrogates of
three bytes each.
-/

namespace Dalvik.Mutf8

/-- A continuation byte with the low six bits of `n`. -/
def continuation (n : Nat) : UInt8 :=
  UInt8.ofNat (0x80 + n % 0x40)

/-- The bytes of one unit. -/
def encodeUnit (u : UInt16) : List UInt8 :=
  let n := u.toNat
  if n = 0 then [0xc0, 0x80]
  else if n < 0x80 then [UInt8.ofNat n]
  else if n < 0x800 then [UInt8.ofNat (0xc0 + n / 0x40), continuation n]
  else [UInt8.ofNat (0xe0 + n / 0x1000), continuation (n / 0x40), continuation n]

/-- The bytes of one character: those of UTF-8, but two for the zero character,
and those of both surrogates for a supplementary one. -/
def encodeChar (c : Char) : List UInt8 :=
  if c.toNat = 0 then [0xc0, 0x80]
  else if c.toNat < 0x10000 then String.utf8EncodeChar c
  else encodeUnit (Utf16.highSurrogate c.toNat) ++ encodeUnit (Utf16.lowSurrogate c.toNat)

/-- The bytes of a string. -/
def encode (s : String) : List UInt8 :=
  s.toList.flatMap encodeChar

/-- Whether a byte continues a sequence. -/
def isContinuation (b : UInt8) : Bool :=
  b.toNat / 0x40 = 2

/-- Reads one unit at the front and leaves the rest. -/
def decodeUnit? : List UInt8 → Option (UInt16 × List UInt8)
  | [] => none
  | b :: rest =>
    let n := b.toNat
    if n = 0 then none
    else if n < 0x80 then some (UInt16.ofNat n, rest)
    else if n / 0x20 = 6 then
      match rest with
      | c :: rest =>
        if isContinuation c then some (UInt16.ofNat (n % 0x20 * 0x40 + c.toNat % 0x40), rest) else none
      | [] => none
    else if n / 0x10 = 14 then
      match rest with
      | c :: d :: rest =>
        if isContinuation c && isContinuation d then
          some (UInt16.ofNat (n % 0x10 * 0x1000 + c.toNat % 0x40 * 0x40 + d.toNat % 0x40), rest)
        else none
      | _ => none
    else none

theorem length_decodeUnit? {bytes rest : List UInt8} {u : UInt16} (h : decodeUnit? bytes = some (u, rest)) :
    rest.length < bytes.length := by
  unfold decodeUnit? at h
  grind

/-- The units of a whole sequence, or nothing if some part of it is
malformed. Overlong forms and unpaired surrogates are let through. -/
def decodeUnits? (bytes : List UInt8) : Option (List UInt16) :=
  if bytes.isEmpty then some []
  else
    match h : decodeUnit? bytes with
    | none => none
    | some (u, rest) =>
      have := length_decodeUnit? h
      (decodeUnits? rest).map (u :: ·)
termination_by bytes.length

/-- Reads a sequence of units that have their shortest forms and no surrogate
outside a pair. -/
def decodeStrict? (bytes : List UInt8) : Option String := do
  let units ← decodeUnits? bytes
  guard (units.flatMap encodeUnit = bytes)
  return String.ofList (← Utf16.decode? units)

/-- Reads text that is written in plain UTF-8, with its four-byte sequences, or
else in Modified UTF-8. -/
def decodeText? (bytes : List UInt8) : Option String :=
  String.fromUTF8? ⟨bytes.toArray⟩ <|> decodeStrict? bytes

/-- Reads string data. What is no text is read unit by unit, and unpaired
surrogates become U+FFFD. -/
def decode? (bytes : List UInt8) : Option String :=
  decodeText? bytes <|> (decodeUnits? bytes).map fun units => String.ofList (Utf16.decodeLossy units)

end Dalvik.Mutf8
