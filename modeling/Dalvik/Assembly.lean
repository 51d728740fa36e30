import Std.Data.HashSet
import Dalvik.Assembly.ClassOrder
import Dalvik.Assembly.File
import Dalvik.View

/-!
# Assemblies

An assembly gathers classes and markers and the entries that they need. Once it
is finalized every entry has an index, and the file can be written. Entries are
made one by one, and what was done before a failure stays done; a class claims
its type before its entries are made, and gives it up if one of them cannot be.
-/

namespace Dalvik

/-- A file in the making. -/
structure Assembly where
  opcodes : Opcodes
  pools : Pools := {}
  /-- The types of the classes that have been added, and of one that is being added. -/
  claimed : Std.HashSet String := {}
  /-- The classes as they came, with their members in order. -/
  classes : Array ClassDef := #[]
  markers : Array Marker := #[]

namespace Assembly

/-- Work on an assembly. -/
abbrev Work := ExceptT Error (StateM Assembly)

/-- Work that only yields an outcome. -/
def ofResult (r : Result α) : Work α :=
  ExceptT.mk (pure r)

/-- Fails with a cause. -/
def fail (cause : Cause) : Work α :=
  ofResult (.fail cause)

/-- Whether every entry has its index. -/
def isFinalized (a : Assembly) : Bool :=
  a.pools.isFinalized

/-! ## Gathering -/

/-- Makes one entry. -/
def internOne (entry : Entry) : Work Unit := do
  ofResult ((← get).pools.accept entry)
  modify fun a => { a with pools := a.pools.insert entry }

/-- Makes entries one after the other, and gives the id of the last one. -/
def intern (entries : List Entry) : Work (Option Nat) := do
  entries.forM internOne
  return entries.getLast?.bind (← get).pools.id?

/-- Claims a type for a class, before anything is made for that class. -/
def claim (type : String) : Work Unit := do
  if (← get).claimed.contains type then fail (.classDefinedTwice type)
  modify fun a => { a with claimed := a.claimed.insert type }

/-- Gives up a type whose class could not be added, and fails. -/
def giveUp (type : String) (e : Error) : Work α := do
  modify fun a => { a with claimed := a.claimed.erase type }
  throw (e.within (.classNamed type))

/-- Adds a class that no class has the type of. -/
def addClassDef (c : ClassDef) : Work Unit := do
  claim c.type
  let c := c.ordered
  tryCatch (discard (intern (Entry.ofClass c))) (giveUp c.type)
  modify fun a => { a with classes := a.classes.push c }

/-- Adds a copy of a class. -/
def addClass (view : ClassView) : Work Unit := do
  if (← get).isFinalized then fail .classesAfterFinalize
  addClassDef (← ofResult view.toClass)

/-- Adds a marker. -/
def addMarker (marker : Marker) : Work Unit := do
  discard (intern [.string marker.text])
  modify fun a => { a with markers := a.markers.push marker }

/-- Adds `count` classes from an index on, up to the first failure. -/
def addClassesFrom (classes : Items ClassView) : (index count : Nat) → Work Unit
  | _, 0 => return ()
  | index, count + 1 => do
    addClass (← ofResult (classes.get index))
    addClassesFrom classes (index + 1) count

/-- Adds the classes and then the markers of a file, up to the first
failure. -/
def addFile (file : FileView) : Work Unit := do
  addClassesFrom file.classes 0 file.classes.count
  (← ofResult file.markers).forM addMarker

/-! ## Writing -/

/-- Gives every entry its index. -/
def finalize : Work Unit := do
  let a ← get
  if a.isFinalized then fail .assemblyAlreadyFinalized
  set { a with pools := ← ofResult a.pools.finalize }

/-- What the file is made from. -/
def blueprint (a : Assembly) : Blueprint where
  opcodes := a.opcodes
  pools := a.pools
  classes := ClassOrder.arrange a.classes.toList

/-- Records where the strings will be. -/
def recordStrings (a : Assembly) : Assembly :=
  { a with pools := { a.pools with strings := a.pools.strings.setOffsets a.blueprint.stringOffsets } }

/-- The bytes of the file. -/
def write : Work Bytes := do
  let a ← get
  if !a.isFinalized then fail .writeBeforeFinalize
  set a.recordStrings
  ofResult a.blueprint.write

/-- The bytes of the file with what some work on a new assembly adds, and the
assembly as it is then. -/
def build (opcodes : Opcodes) (work : Work Unit) : Result (Bytes × Assembly) :=
  let whole : Work Bytes := do
    work
    finalize
    write
  match whole.run.run { opcodes } with
  | (.ok bytes, a) => .ok (bytes, a)
  | (.error e, _) => .error e

end Assembly

/-- The bytes of a file. -/
def FileView.assemble (file : FileView) : Result Bytes :=
  (Assembly.build file.opcodes (Assembly.addFile file)).map (·.1)

end Dalvik
