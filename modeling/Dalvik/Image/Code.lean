import Dalvik.DebugInfo
import Dalvik.Image.Basic
import Dalvik.Instruction.Decode
import Dalvik.View

/-!
# Method bodies in an image

The head of a code item is read first; instructions, handlers and debug
information are read when they are asked for.
-/

namespace Dalvik

/-- The head of a code item, whose instructions lie inside the image. -/
structure StoredCode where
  image : Image
  offset : Nat
  registers : UInt16
  tryCount : Nat
  debugOffset : Nat
  unitCount : Nat

namespace StoredCode

/-- The bytes of a code item in front of its instructions. -/
def headSize : Nat := 16

/-- The bytes of a try item. -/
def tryItemSize : Nat := 8

/-- The code item at an offset. -/
def at? (image : Image) (offset : Nat) : Result StoredCode :=
  (image.readAt · offset) do
    let registers ← Read.ushort
    Read.skip 4
    let tryCount := (← Read.ushort).toNat
    let debugOffset := (← Read.smallUint).toNat
    let unitCount := (← Read.smallUint).toNat
    if offset + headSize + 2 * unitCount > image.bytes.size then Read.fail (.codePastEnd offset)
    return { image, offset, registers, tryCount, debugOffset, unitCount }

/-- Where the instructions begin. -/
def instructionsStart (c : StoredCode) : Nat :=
  c.offset + headSize

/-- Where the try items begin: after the instructions, at a multiple of four
bytes. -/
def triesStart (c : StoredCode) : Nat :=
  c.instructionsStart + 2 * c.unitCount + 2 * (c.unitCount % 2)

/-- Where the handlers begin. -/
def handlersStart (c : StoredCode) : Nat :=
  c.triesStart + c.tryCount * tryItemSize

/-- The bytes of the instructions. -/
def codeBytes (c : StoredCode) : Bytes :=
  c.image.bytes.extract c.instructionsStart (c.instructionsStart + 2 * c.unitCount)

/-! ## Instructions -/

/-- Reads an instruction with its references. -/
def readInstruction (c : StoredCode) : Read (Instruction Reference) := do
  let address := (← Read.tell) / 2
  let step : Read (Instruction Reference) := do
    let raw ← Instruction.decode c.image.opcodes
    Read.ofResult (raw.mapReferences c.image.resolver.resolve)
  step.within (.instruction address)

/-- The instructions from an offset of the code on, up to the first that
cannot be read. Each takes bytes, so `fuel` need not exceed their number. -/
def instructionsFrom (c : StoredCode) (code : Bytes) : (fuel offset : Nat) → List (Result (Instruction Reference))
  | 0, _ => []
  | fuel + 1, offset =>
    if offset < code.size then
      match c.readInstruction.on code offset with
      | (.ok i, next) => .ok i :: c.instructionsFrom code fuel next
      | (.error e, _) => [.error e]
    else []

/-- The instructions, up to the first that cannot be read. -/
def instructions (c : StoredCode) : List (Result (Instruction Reference)) :=
  c.instructionsFrom c.codeBytes (2 * c.unitCount) 0

/-! ## Handlers -/

/-- Steps over the handlers of a try block. -/
def skipHandlers : Read Unit := do
  let size := (← Read.sleb128).toInt
  let pair : Read Unit := do
    discard Read.uleb128
    discard Read.uleb128
  Read.repeated pair size.natAbs
  if size ≤ 0 then discard Read.uleb128

/-- The number of bytes of the code item with all that belongs to it. -/
def size (c : StoredCode) : Result Nat :=
  if c.tryCount = 0 then .ok (headSize + 2 * c.unitCount)
  else
    (c.image.readAt · c.handlersStart) do
      let count := (← Read.smallUleb128).toNat
      Read.repeated skipHandlers count
      return (← Read.tell) - c.offset

/-- Reads a handler for one type. -/
def readTyped (image : Image) : Read Handler := do
  let type ← Read.ofResult (image.type (← Read.smallUleb128))
  return { type := some type, address := ← Read.smallUleb128 }

/-- Reads the handlers of a try block: a number that is not positive announces
a last handler for all exceptions. -/
def readHandlers (image : Image) : Read (List Handler) := do
  let size := (← Read.sleb128).toInt
  let typed ← Read.times (readTyped image) size.natAbs
  if size ≤ 0 then return typed ++ [{ type := none, address := ← Read.smallUleb128 }]
  else return typed

/-- Reads a try item with its handlers. -/
def readTry (c : StoredCode) (index : Nat) : Read TryBlock := do
  let start ← Read.smallUint
  let count ← Read.ushort
  let handlerOffset := (← Read.ushort).toNat
  let handlers := c.image.readAt (readHandlers c.image) (c.handlersStart + handlerOffset)
  return { start, count, handlers := ← Read.ofResult (handlers.within (.tryBlock index)) }

/-- Reads `count` try items, the first of which has the given index. -/
def readTries (c : StoredCode) : (index count : Nat) → Read (List TryBlock)
  | _, 0 => return []
  | index, count + 1 => do
    let first ← c.readTry index
    return first :: (← c.readTries (index + 1) count)

/-- The try blocks. -/
def tries (c : StoredCode) : Result (List TryBlock) :=
  if c.tryCount = 0 then .ok [] else c.image.readAt (c.readTries 0 c.tryCount) c.triesStart

/-! ## Debug information -/

/-- Reads the index of a string that may be missing. -/
def readString? (image : Image) : Read (Option String) := do
  Read.ofResult (image.string? (← Read.uleb128p1).toUInt32)

/-- Reads the index of a type that may be missing. -/
def readType? (image : Image) : Read (Option String) := do
  Read.ofResult (image.type? (← Read.uleb128p1).toUInt32)

/-- The names of the parameters, as far as the debug information has them. -/
def parameterNames (c : StoredCode) : Result (List (Option String)) :=
  if c.debugOffset = 0 then .ok []
  else
    (c.image.readAt · c.debugOffset) do
      discard Read.uleb128
      let count := (← Read.smallUleb128).toNat
      Read.times (readString? c.image) count

/-- What one operation of the debug machine does. -/
inductive DebugStep where
  | move (next : DebugState)
  | emit (item : DebugItem) (next : DebugState)
  | stop

/-- Reads one operation of the debug machine. -/
def readDebug (image : Image) (state : DebugState) : Read DebugStep := do
  let emit (event : DebugEvent) : DebugStep := .emit ⟨state.address, event⟩ state
  let op := (← Read.ubyte).toNat
  match op with
  | 0x00 => return .stop
  | 0x01 => return .move { state with address := state.address + (← Read.smallUleb128) }
  | 0x02 => return .move { state with line := state.line + (← Read.sleb128).toUInt32 }
  | 0x03 =>
    let register ← Read.smallUleb128
    let name ← readString? image
    let type ← readType? image
    return emit (.startLocal register name type none)
  | 0x04 =>
    let register ← Read.smallUleb128
    let name ← readString? image
    let type ← readType? image
    return emit (.startLocal register name type (← readString? image))
  | 0x05 => return emit (.endLocal (← Read.smallUleb128))
  | 0x06 => return emit (.restartLocal (← Read.smallUleb128))
  | 0x07 => return emit .prologueEnd
  | 0x08 => return emit .epilogueBegin
  | 0x09 => return emit (.setFile (← readString? image))
  | _ =>
    let adjusted := op - DebugState.firstSpecial
    let line := state.line + UInt32.ofInt (DebugState.lineBase + (adjusted % DebugState.lineRange : Nat))
    let address := state.address + UInt32.ofNat (adjusted / DebugState.lineRange)
    return .emit ⟨address, .line line⟩ { address, line }

/-- The items of the debug information from an offset on, up to the first that
cannot be read. Each operation takes bytes, so `fuel` need not exceed their
number by more than one. -/
def debugFrom (image : Image) : (fuel : Nat) → DebugState → (offset : Nat) → List (Result DebugItem)
  | 0, _, _ => []
  | fuel + 1, state, offset =>
    match (readDebug image state).on image.bytes offset with
    | (.ok .stop, _) => []
    | (.ok (.move next), rest) => debugFrom image fuel next rest
    | (.ok (.emit item next), rest) => .ok item :: debugFrom image fuel next rest
    | (.error e, rest) => [.error (e.within (.debugInfo rest))]

/-- The items of the debug information, up to the first that cannot be
read. -/
def debugItems (c : StoredCode) : List (Result DebugItem) :=
  if c.debugOffset = 0 then []
  else
    let head : Read (UInt32 × Nat) := do
      let line ← Read.smallUleb128
      let count := (← Read.smallUleb128).toNat
      Read.repeated (discard Read.uleb128) count
      return (line, ← Read.tell)
    match c.image.readAt head c.debugOffset with
    | .error e => [.error e]
    | .ok (line, start) => debugFrom c.image (c.image.bytes.size + 1) ⟨0, line⟩ start

/-- The view of a body. -/
def view (c : StoredCode) : CodeView :=
  ⟨c.registers, c.instructions, c.tries, c.debugItems⟩

end StoredCode

end Dalvik
