import Dalvik.Bounds

/-!
# Checksums

Adler-32 sums up bytes, and these sums.

SHA-1 pads a message to blocks of 64 bytes. Each block is expanded to 80 words
of 32 bits, which change five words of state in 80 rounds.
-/

/-! ## Adler-32 -/

namespace Dalvik.Adler32

/-- The greatest prime below 2^16. -/
def modulus : Nat := 65521

/-- The sum of the bytes, and the sum of these sums, from their values
before. -/
def sums (message : List UInt8) (start : Nat × Nat) : Nat × Nat :=
  message.foldl (fun (a, b) byte =>
    let a := (a + byte.toNat) % modulus
    (a, (b + a) % modulus)) start

/-- The checksum of a message. -/
def checksum (message : List UInt8) : UInt32 :=
  let (a, b) := sums message (1, 0)
  UInt32.ofNat (b * bitBound 16 + a)

end Dalvik.Adler32

/-! ## SHA-1 -/

namespace Dalvik.Sha1

/-- The five words of state. -/
structure State where
  a : UInt32
  b : UInt32
  c : UInt32
  d : UInt32
  e : UInt32
  deriving DecidableEq, Repr

/-- The state before the first block. -/
def initial : State :=
  ⟨0x67452301, 0xefcdab89, 0x98badcfe, 0x10325476, 0xc3d2e1f0⟩

/-- Turns a word to the left by less than 32 bits. -/
def rotate (n v : UInt32) : UInt32 :=
  v <<< n ||| v >>> (32 - n)

/-- A word from four bytes, the highest first. -/
def word (a b c d : UInt8) : UInt32 :=
  a.toUInt32 <<< 24 ||| b.toUInt32 <<< 16 ||| c.toUInt32 <<< 8 ||| d.toUInt32

/-- The four bytes of a word, the highest first. -/
def wordBytes (v : UInt32) : List UInt8 :=
  [(v >>> 24).toUInt8, (v >>> 16).toUInt8, (v >>> 8).toUInt8, v.toUInt8]

/-- Takes up to `count` words from the front of some bytes. -/
def takeWords : (count : Nat) → List UInt8 → Array UInt32 → Array UInt32 × List UInt8
  | count + 1, a :: b :: c :: d :: rest, words => takeWords count rest (words.push (word a b c d))
  | _, rest, words => (words, rest)

/-- A one bit, zeros, and the number of bits of the message in 64 bits, so that
whole blocks result. -/
def padding (length : Nat) : List UInt8 :=
  0x80 :: List.replicate ((119 - length % 64) % 64) 0 ++
    wordBytes (UInt32.ofNat (8 * length / bitBound 32)) ++ wordBytes (UInt32.ofNat (8 * length))

/-- Adds words until there are `count` more. -/
def expand : (count : Nat) → Array UInt32 → Array UInt32
  | 0, words => words
  | count + 1, words =>
    let at' (back : Nat) : UInt32 := words[words.size - back]?.getD 0
    expand count (words.push (rotate 1 (at' 3 ^^^ at' 8 ^^^ at' 14 ^^^ at' 16)))

/-- The function and the constant of a round. -/
def mix (round : Nat) (b c d : UInt32) : UInt32 :=
  if round < 20 then (b &&& c ||| ~~~b &&& d) + 0x5a827999
  else if round < 40 then (b ^^^ c ^^^ d) + 0x6ed9eba1
  else if round < 60 then (b &&& c ||| b &&& d ||| c &&& d) + 0x8f1bbcdc
  else (b ^^^ c ^^^ d) + 0xca62c1d6

/-- One round. -/
def step (s : State) (round : Nat) (w : UInt32) : State :=
  ⟨rotate 5 s.a + mix round s.b s.c s.d + s.e + w, s.a, rotate 30 s.b, s.c, s.d⟩

/-- The rounds of a block, from the given one on. -/
def rounds (words : Array UInt32) : (count round : Nat) → State → State
  | 0, _, s => s
  | count + 1, round, s => rounds words count (round + 1) (step s round (words[round]?.getD 0))

/-- Takes in one block of 16 words. -/
def absorb (s : State) (block : Array UInt32) : State :=
  let t := rounds (expand 64 block) 80 0 s
  ⟨s.a + t.a, s.b + t.b, s.c + t.c, s.d + t.d, s.e + t.e⟩

/-- Takes in `count` blocks. -/
def absorbAll : (count : Nat) → List UInt8 → State → State
  | 0, _, s => s
  | count + 1, bytes, s =>
    let (block, rest) := takeWords 16 bytes #[]
    absorbAll count rest (absorb s block)

/-- The bytes of a state. -/
def State.bytes (s : State) : List UInt8 :=
  [s.a, s.b, s.c, s.d, s.e].flatMap wordBytes

/-- The 20 bytes that stand for a message. -/
def digest (message : List UInt8) : List UInt8 :=
  let padded := message ++ padding message.length
  (absorbAll (padded.length / 64) padded initial).bytes

theorem length_digest (message : List UInt8) : (digest message).length = 20 := rfl

end Dalvik.Sha1
