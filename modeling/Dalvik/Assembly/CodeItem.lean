import Dalvik.Assembly.Draft
import Dalvik.ClassDef
import Dalvik.Instruction.Encode

/-!
# Written method bodies

A code item has a head, the instructions, and if there are any the try blocks
with their handlers. Try blocks with equal handlers share one entry of the list
of handlers.
-/

namespace Dalvik.CodeItem

/-! ## Handlers -/

/-- A handler for one type. -/
def writeTyped (n : Numbering) (h : Handler) : Result (List UInt8) :=
  match h.type with
  | some type => (n.type type).map fun index => Write.uleb128 index ++ Write.uleb128 h.address
  | none => .ok []

/-- The handlers of one try block: the number of typed ones, made negative if
there is one for all exceptions, then the typed ones, then that one. -/
def writeHandlers (n : Numbering) (handlers : List Handler) : Result (List UInt8) := do
  let typed := handlers.filter (·.type.isSome)
  let catchAll := handlers.filter (·.type.isNone)
  if catchAll.length > 1 then Result.fail .secondCatchAll
  let size := Int32.ofNat typed.length
  let entries ← typed.mapM (writeTyped n)
  return Write.sleb128 (if catchAll.isEmpty then size else -size) ++ entries.flatten ++
    catchAll.flatMap fun h => Write.uleb128 h.address

/-- The entries of the list of handlers from a position in it on. Each comes
with its position. -/
def writeEntries (n : Numbering) (position : Nat) : List (List Handler) → Result (List (List Handler × UInt16) × List UInt8)
  | [] => .ok ([], [])
  | handlers :: rest => do
    let place ← narrow "handler offset" position
    let entry ← writeHandlers n handlers
    let (places, bytes) ← writeEntries n (position + entry.length) rest
    return ((handlers, place) :: places, entry ++ bytes)

/-- The list of handlers, and the place in it of the handlers of each try
block. -/
def writeHandlerList (n : Numbering) (tries : List TryBlock) : Result (List UInt8 × List UInt16) := do
  let different := (tries.map (·.handlers)).eraseDups
  let head := Write.uleb128 (UInt32.ofNat different.length)
  let (places, bytes) ← writeEntries n head.length different
  return (head ++ bytes, tries.map fun t => (places.lookup t.handlers).getD 0)

/-- A try block whose handlers have a place. -/
def writeTry (t : TryBlock) (place : UInt16) : List UInt8 :=
  Write.uint t.start ++ Write.ushort t.count ++ Write.ushort place

/-- All try blocks of some instructions, with the padding in front of them. -/
def writeTries (n : Numbering) (units : Nat) (tries : List TryBlock) : Result (List UInt8) := do
  if tries.isEmpty then return []
  let padding := if units % 2 = 0 then [] else Write.ushort 0
  let (handlers, places) ← writeHandlerList n tries
  return padding ++ (tries.zipWith writeTry places).flatten ++ handlers

/-! ## Code items -/

/-- Whether a reference is what an instruction passes arguments to. -/
def takesArguments : Reference → Bool
  | .method _ => true
  | .callSite _ => true
  | _ => false

/-- The number of argument registers that an instruction passes on. -/
def outgoing (i : Instruction Reference) : Nat :=
  match i.operands with
  | .f35c registers r | .f45cc registers r _ => if takesArguments r then registers.length else 0
  | .f3rc _ count r | .f4rcc _ count r _ => if takesArguments r then count.toNat else 0
  | _ => 0

/-- The number of registers for outgoing arguments. -/
def outgoingSize (code : List (Instruction Reference)) : Nat :=
  (code.map outgoing).foldl max 0

/-- The number of registers for incoming arguments. -/
def incomingSize (m : MethodDef) : Nat :=
  m.sig.proto.registerCount + if m.flags.isStatic then 0 else 1

/-- The code item of the body of a method, whose debug information is at
`debugOffset`. -/
def encode (n : Numbering) (opcodes : Opcodes) (m : MethodDef) (c : Code) (debugOffset : UInt32) :
    Result (List UInt8) := do
  let indexed ← c.instructions.mapM fun i => i.mapReferences fun _ r => n.indexOf r
  let (code, outcome) := Instruction.encodeAll opcodes indexed
  let units ← outcome
  let tryCount ← narrow "try count" c.tries.length
  let tries ← writeTries n units c.tries
  return Write.ushort c.registers ++ Write.ushort (UInt16.ofNat (incomingSize m)) ++
    Write.ushort (UInt16.ofNat (outgoingSize c.instructions)) ++ Write.ushort tryCount ++
    Write.uint debugOffset ++ Write.uint (UInt32.ofNat units) ++ code ++ tries

end Dalvik.CodeItem
