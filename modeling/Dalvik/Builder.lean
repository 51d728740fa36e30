import Std.Data.HashSet
import Dalvik.Assembly
import Dalvik.Builder.Classes
import Dalvik.Builder.Arenas

/-!
# Builders

A builder gathers classes and markers as an assembly does, and keeps them by handles. It
is finalized by sealing its arenas. The file is written from what the handles stand for.
-/

namespace Dalvik

namespace Builder.Arenas

variable (a : Arenas)

/-! ## What keys stand for -/

/-- The string behind a handle. -/
def string? (h : Handle String) : Option String :=
  a.strings.keys[h.id.toNat]?

/-- The descriptor of the type behind a handle. -/
def type? (h : Handle TypeKey) : Option String := do
  a.string? (← a.types.keys[h.id.toNat]?).name

def typeListOf? (k : TypeListKey) : Option (List String) :=
  k.types.mapM a.type?

/-- The types behind the handle of a list; none if there is no handle. -/
def typeList? : Option (Handle TypeListKey) → Option (List String)
  | some h => do a.typeListOf? (← a.typeLists.keys[h.id.toNat]?)
  | none => some []

def protoOf? (k : ProtoKey) : Option Prototype := do
  return { returnType := ← a.type? k.returnType, parameters := ← a.typeList? k.parameters }

def fieldOf? (k : FieldKey) : Option FieldSig := do
  return { definingClass := ← a.type? k.definingClass, name := ← a.string? k.name, type := ← a.type? k.type }

def methodOf? (k : MethodKey) : Option MethodSig := do
  let proto ← a.protoOf? (← a.protos.keys[k.proto.id.toNat]?)
  return {
    definingClass := ← a.type? k.definingClass
    name := ← a.string? k.name
    parameters := proto.parameters
    returnType := proto.returnType }

def memberOf? : MemberKey → Option HandleMember
  | .field h => (a.fields.keys[h.id.toNat]?.bind a.fieldOf?).map .field
  | .method h => (a.methods.keys[h.id.toNat]?.bind a.methodOf?).map .method

def handleOf? (k : MethodHandleKey) : Option MethodHandle := do
  (MethodHandle.make k.kind (← a.memberOf? k.member)).toOption

def callSiteOf? (k : CallSiteKey) : Option CallSite := do
  CallSite.ofValues? (← a.arrays.keys[k.array.id.toNat]?)

def annotationSetOf? (k : AnnotationSetKey) : Option (List AnnotationItem) :=
  (k.annotations.mapM fun h => a.annotations.keys[h.id.toNat]?).map AnnotationItem.setOf

/-- The pools of what the keys of the arenas stand for. -/
def pools : Pools where
  strings := a.strings.spelled some
  types := a.types.spelled fun k => a.string? k.name
  typeLists := a.typeLists.spelled a.typeListOf?
  protos := a.protos.spelled a.protoOf?
  fields := a.fields.spelled a.fieldOf?
  methods := a.methods.spelled a.methodOf?
  handles := a.handles.spelled a.handleOf?
  arrays := a.arrays.spelled some
  callSites := a.callSites.spelled a.callSiteOf?
  annotations := a.annotations.spelled some
  annotationSets := a.annotationSets.spelled a.annotationSetOf?

end Builder.Arenas

/-- A file in the making, with its entries in arenas. -/
structure Builder where
  opcodes : Opcodes
  arenas : Builder.Arenas := {}
  /-- The types of the classes that have been added, and of one that is being added. -/
  claimed : Std.HashSet String := {}
  /-- The classes as they came. -/
  classes : Array Builder.InternedClass := #[]
  markers : Array Marker := #[]

namespace Builder

/-- Work on a builder. -/
abbrev Work := ExceptT Error (StateM Builder)

/-- Work that only yields an outcome. -/
def ofResult (r : Result α) : Work α :=
  ExceptT.mk (pure r)

/-- Fails with a cause. -/
def fail (cause : Cause) : Work α :=
  ofResult (.fail cause)

/-- Work on the arenas of a builder. -/
def interning (work : Interning α) : Work α :=
  ExceptT.mk fun b =>
    let (r, arenas) := work.run.run b.arenas
    (r, { b with arenas })

/-- Whether every entry has its index. -/
def isFinalized (b : Builder) : Bool :=
  b.arenas.isFinalized

/-! ## Gathering -/

/-- Claims a type for a class, before anything is interned for that class. -/
def claim (type : String) : Work Unit := do
  if (← get).claimed.contains type then fail (.classDefinedTwice type)
  modify fun b => { b with claimed := b.claimed.insert type }

/-- Gives up a type whose class could not be added, and fails. -/
def giveUp (type : String) (e : Error) : Work α := do
  modify fun b => { b with claimed := b.claimed.erase type }
  throw (e.within (.classNamed type))

/-- Adds a class that no class has the type of. -/
def addClassDef (c : ClassDef) : Work Unit := do
  claim c.type
  let k ← tryCatch (interning (internClass c.ordered)) (giveUp c.type)
  modify fun b => { b with classes := b.classes.push k }

/-- Adds a copy of a class. -/
def addClass (view : ClassView) : Work Unit := do
  if (← get).isFinalized then fail .classesAfterFinalize
  addClassDef (← ofResult view.toClass)

/-- Adds a marker. -/
def addMarker (marker : Marker) : Work Unit := do
  discard (interning (internString marker.text))
  modify fun b => { b with markers := b.markers.push marker }

/-! ## Writing -/

/-- Gives every entry its index. -/
def finalize : Work Unit := do
  let b ← get
  if b.isFinalized then fail .assemblyAlreadyFinalized
  set { b with arenas := ← ofResult b.arenas.finalize }

/-- What the file is made from. -/
def blueprint (b : Builder) : Blueprint where
  opcodes := b.opcodes
  pools := b.arenas.pools
  classes := (arrange b.arenas b.classes.toList).map InternedClass.definition

/-- The bytes of the file. -/
def write (b : Builder) : Result Bytes :=
  if b.isFinalized then b.blueprint.write else .fail .writeBeforeFinalize

end Builder

end Dalvik
