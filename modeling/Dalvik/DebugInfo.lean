import Dalvik.Code
import Dalvik.Reference
import Dalvik.Write

/-!
# Debug information

Debug information is a program for a small machine with an address and a line.
Its operations move these or yield items. One operation of a single byte does
both for a line: it moves the address and the line by small steps, and yields
the line at the address.

The written program starts with the first line that occurs and with the names of
the parameters. Items have to come in the order of their addresses.
-/

namespace Dalvik

/-- The registers of the debug machine. -/
structure DebugState where
  address : UInt32
  line : UInt32
  deriving DecidableEq, Repr

namespace DebugState

/-- The first operation that stands for a line. -/
def firstSpecial : Nat := 0x0a

/-- The smallest change of the line by an operation that stands for a line. -/
def lineBase : Int := -4

/-- The number of changes of the line that such an operation can make. -/
def lineRange : Nat := 15

end DebugState

/-! ## The written form -/

namespace DebugInfo

open DebugState (firstSpecial lineBase lineRange)

/-- The index of a string that may be missing. -/
def writeString? (n : Numbering) : Option String → Result (List UInt8)
  | some s => (n.string s).map fun index => Write.uleb128p1 index.toInt32
  | none => .ok (Write.uleb128p1 (-1))

/-- The index of a type that may be missing. -/
def writeType? (n : Numbering) : Option String → Result (List UInt8)
  | some d => (n.type d).map fun index => Write.uleb128p1 index.toInt32
  | none => .ok (Write.uleb128p1 (-1))

/-- Moves the address to that of the next item. -/
def advance (state : DebugState) (address : UInt32) : Result (List UInt8 × DebugState) :=
  if address < state.address then .fail (.debugItemOrder address.toNat state.address.toNat)
  else if address = state.address then .ok ([], state)
  else .ok (0x01 :: Write.uleb128 (address - state.address), { state with address })

/-- Whether an operation that stands for a line can move the line that far. -/
def isSmallStep (delta : Int) : Bool :=
  lineBase ≤ delta && delta < lineBase + lineRange

/-- The longest way that the address can go in one operation with the line. -/
def longestWay (delta : Int) : Nat :=
  if delta < 2 then 16 else 15

/-- Yields a line, by one operation if the steps are small and by up to three
if they are not. -/
def writeLine (state : DebugState) (address line : UInt32) : Result (List UInt8 × DebugState) :=
  if address < state.address then .fail (.lineOrder address.toNat state.address.toNat)
  else
    let delta := (line - state.line).toInt32
    let small := isSmallStep delta.toInt
    let lineMove := if small then [] else 0x02 :: Write.sleb128 delta
    let lineStep := if small then delta.toInt else 0
    let way := address - state.address
    let short := way.toNat ≤ longestWay lineStep
    let addressMove := if short then [] else 0x01 :: Write.uleb128 way
    let addressStep := if short then way.toNat else 0
    let special := firstSpecial + addressStep * lineRange + (lineStep - lineBase).toNat
    .ok (lineMove ++ addressMove ++ [UInt8.ofNat special], ⟨address, line⟩)

/-- The operation that yields an event other than a line. -/
def writeEvent (n : Numbering) : DebugEvent → Result (List UInt8)
  | .startLocal register name type signature => do
    let name ← writeString? n name
    let type ← writeType? n type
    let head := if signature.isSome then 0x04 else 0x03
    let tail ← if signature.isSome then writeString? n signature else pure []
    return head :: Write.uleb128 register ++ name ++ type ++ tail
  | .endLocal register => .ok (0x05 :: Write.uleb128 register)
  | .restartLocal register => .ok (0x06 :: Write.uleb128 register)
  | .prologueEnd => .ok [0x07]
  | .epilogueBegin => .ok [0x08]
  | .setFile name => (writeString? n name).map (0x09 :: ·)
  | .line _ => .ok []

/-- Yields an item. -/
def writeItem (n : Numbering) (state : DebugState) (item : DebugItem) : Result (List UInt8 × DebugState) :=
  match item.event with
  | .line line => writeLine state item.address line
  | event => do
    let (move, state) ← advance state item.address
    return (move ++ (← writeEvent n event), state)

/-- Yields items one after the other and stops. -/
def writeItems (n : Numbering) (state : DebugState) : List DebugItem → Result (List UInt8)
  | [] => .ok [0x00]
  | item :: rest => do
    let (bytes, state) ← writeItem n state item
    return bytes ++ (← writeItems n state rest)

/-- The line that an event gives, if it does. -/
def lineOf? : DebugEvent → Option UInt32
  | .line line => some line
  | _ => none

/-- The line to start with: the first that occurs. -/
def firstLine (items : List DebugItem) : UInt32 :=
  (items.findSome? fun item => lineOf? item.event).getD 0

/-- The debug information of a method with the given names of parameters. -/
def encode (n : Numbering) (names : List (Option String)) (items : List DebugItem) : Result (List UInt8) := do
  let line := firstLine items
  let names' ← names.mapM (writeString? n)
  let body ← writeItems n ⟨0, line⟩ items
  return Write.uleb128 line ++ Write.uleb128 (UInt32.ofNat names.length) ++ names'.flatten ++ body

end DebugInfo

end Dalvik
