import Dalvik.Instruction.Basic

/-!
# Method bodies

The code of a method with its exception handlers and its debug information.
Addresses count code units from the start of the code.
-/

namespace Dalvik

/-- Where execution goes on after an exception. -/
structure Handler where
  /-- The type of the exceptions that are caught, or all of them. -/
  type : Option String
  address : UInt32
  deriving DecidableEq, Repr

/-- A stretch of code with its handlers. -/
structure TryBlock where
  start : UInt32
  count : UInt16
  handlers : List Handler
  deriving DecidableEq, Repr

/-- What the debug information says about an address. -/
inductive DebugEvent where
  | startLocal (register : UInt32) (name type signature : Option String)
  | endLocal (register : UInt32)
  | restartLocal (register : UInt32)
  | prologueEnd
  | epilogueBegin
  | setFile (name : Option String)
  | line (number : UInt32)
  deriving DecidableEq, Repr

/-- An event at an address. -/
structure DebugItem where
  address : UInt32
  event : DebugEvent
  deriving DecidableEq, Repr

/-- The body of a method. -/
structure Code where
  registers : UInt16
  instructions : List (Instruction Reference)
  tries : List TryBlock := []
  debug : List DebugItem := []
  deriving DecidableEq, Repr

namespace Code

/-- The number of code units of the instructions. -/
def codeUnits (c : Code) : Nat :=
  c.instructions.foldr (fun i count => i.codeUnits + count) 0

end Code

end Dalvik
