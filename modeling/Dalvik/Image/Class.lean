import Dalvik.Image.Annotations
import Dalvik.Image.Code
import Dalvik.Value.Decode

/-!
# Classes in an image

The members of a class stand in four lists one after the other. An entry gives
the index of a member as the difference to the one before it. The initial
values of static fields and the hidden API flags of all members are parallel
lists, which are read in step with the entries. What the reading of these lists
keeps of an offset are its lowest 32 bits.
-/

namespace Dalvik

/-- The four lists of members of a class. -/
inductive MemberKind where
  | staticField
  | instanceField
  | directMethod
  | virtualMethod
  deriving DecidableEq, Repr

namespace MemberKind

/-- Whether the members of a list are methods. -/
def isMethod : MemberKind → Bool
  | staticField | instanceField => false
  | directMethod | virtualMethod => true

end MemberKind

/-- The definition of a class with the sizes of its lists of members. -/
structure StoredClass where
  image : Image
  index : UInt32
  item : ClassDefItem
  directory : StoredDirectory
  staticCount : Nat := 0
  instanceCount : Nat := 0
  directCount : Nat := 0
  virtualCount : Nat := 0
  membersOffset : UInt32 := 0

/-- A field of a class in an image. -/
structure StoredField where
  image : Image
  classIndex : UInt32
  index : UInt32
  flags : AccessFlags
  valueOffset : Option UInt32
  annotationsOffset : Nat
  hiddenFlags : Option UInt32

/-- A method of a class in an image. -/
structure StoredMethod where
  image : Image
  classIndex : UInt32
  index : UInt32
  flags : AccessFlags
  codeOffset : Nat
  entrySize : Nat
  annotationsOffset : Nat
  parametersOffset : Nat
  hiddenFlags : Option UInt32

/-- An entry of a list of members with what the parallel lists hold for it. -/
structure MemberEntry where
  index : UInt32
  flags : UInt32
  codeOffset : Nat
  size : Nat
  valueOffset : Option UInt32
  hiddenFlags : Option UInt32

/-- Where the reading of a list of members has come to. -/
structure MemberCursor where
  offset : UInt32
  /-- The index of the member before. -/
  previous : UInt32 := 0
  /-- Where the next initial value is and how many are left. -/
  values : Option (UInt32 × Nat) := none
  /-- Where the next hidden API flags are. -/
  hidden : Option UInt32 := none

/-- The hidden API flags as restrictions. -/
def hiddenApiOf (flags : Option UInt32) : Result (Option HiddenApi) :=
  match flags with
  | none => .ok none
  | some flags => (HiddenApi.ofValue flags.toNat).map some

namespace StoredField

/-- The identifier of a field. -/
def id (f : StoredField) : Result FieldId := do
  f.image.readAt Layout.read (← f.image.fieldIdOffset f.index)

/-- The class of a field. -/
def definingClass (f : StoredField) : Result String :=
  f.image.type f.classIndex

/-- The name of a field. -/
def name (f : StoredField) : Result String := do
  f.image.string (← f.id).name

/-- The type of a field. -/
def type (f : StoredField) : Result String := do
  f.image.type (UInt32.ofNat (← f.id).type.toNat)

/-- The signature of a field. -/
def sig (f : StoredField) : Result FieldSig := do
  let definingClass ← f.definingClass
  let name ← f.name
  return { definingClass, name, type := ← f.type }

/-- The value that a field starts with, if it is given. -/
def value (f : StoredField) : Result (Option Value) :=
  match f.valueOffset with
  | none => .ok none
  | some offset => (f.image.readAt (Value.decode f.image.valueResolver) offset.toNat).map some

/-- The annotations of a field. -/
def annotations (f : StoredField) : Items StoredAnnotationItem :=
  f.image.annotationSet f.annotationsOffset

/-- The restrictions of a field. -/
def hidden (f : StoredField) : Result (Option HiddenApi) :=
  hiddenApiOf f.hiddenFlags

/-- The view of a field. -/
def view (f : StoredField) : FieldView where
  definingClass := f.definingClass
  name := f.name
  type := f.type
  flags := f.flags
  value := f.value
  annotations := f.annotations.map StoredAnnotationItem.view
  hidden := f.hidden

end StoredField

namespace StoredMethod

/-- The offset of the identifier of a method, in 32 bits. -/
def idOffset (m : StoredMethod) : Result Nat :=
  (m.image.methodIdOffset m.index).map (· % bitBound 32)

/-- The offset of the prototype of a method, in 32 bits. -/
def protoOffset (m : StoredMethod) : Result Nat := do
  let proto ← m.image.readAt Read.ushort ((← m.idOffset) + 2)
  return (← m.image.protoIdOffset (UInt32.ofNat proto.toNat)) % bitBound 32

/-- The class of a method. -/
def definingClass (m : StoredMethod) : Result String :=
  m.image.type m.classIndex

/-- The name of a method. -/
def name (m : StoredMethod) : Result String := do
  m.image.string (← m.image.readAt Read.smallUint ((← m.idOffset) + 4))

/-- The types of the parameters. -/
def parameterTypes (m : StoredMethod) : Result (List String) := do
  m.image.typeList (← m.image.readAt Read.smallUint ((← m.protoOffset) + 8)).toNat

/-- The type of the result. -/
def returnType (m : StoredMethod) : Result String := do
  m.image.type (← m.image.readAt Read.smallUint ((← m.protoOffset) + 4))

/-- The signature of a method. -/
def sig (m : StoredMethod) : Result MethodSig := do
  let definingClass ← m.definingClass
  let name ← m.name
  let parameters ← m.parameterTypes
  return { definingClass, name, parameters, returnType := ← m.returnType }

/-- The body of a method, if it has one. -/
def code (m : StoredMethod) : Result (Option StoredCode) :=
  if m.codeOffset = 0 then .ok none else (StoredCode.at? m.image m.codeOffset).map some

/-- The number of bytes of a method: its entry, its body and its
identifier. -/
def size (m : StoredMethod) : Result Nat := do
  let code ←
    match ← m.code with
    | some code => code.size
    | none => pure 0
  return m.entrySize + code + MethodId.byteSize

/-- The annotations of a method. -/
def annotations (m : StoredMethod) : Items StoredAnnotationItem :=
  m.image.annotationSet m.annotationsOffset

/-- The annotations of the parameters, as far as there are any. -/
def parameterAnnotations (m : StoredMethod) : Result (List (List AnnotationItem)) := do
  (← m.image.annotationSetRefs m.parametersOffset).mapM fun offset =>
    AnnotationView.collect ((m.image.annotationSet offset).map StoredAnnotationItem.view)

/-- The parameters with their names and their annotations. Names and
annotations that are missing at the end are left out, and those beyond the last
parameter are ignored. -/
def parameters (m : StoredMethod) : Result (List Parameter) := do
  let types ← m.parameterTypes
  if types.isEmpty then return []
  let names ←
    match ← m.code with
    | some code => code.parameterNames
    | none => pure []
  let annotations ← m.parameterAnnotations
  return types.mapIdx fun i type =>
    { type, name := names[i]?.join, annotations := annotations[i]?.getD [] }

/-- The restrictions of a method. -/
def hidden (m : StoredMethod) : Result (Option HiddenApi) :=
  hiddenApiOf m.hiddenFlags

/-- The view of a method. -/
def view (m : StoredMethod) : MethodView where
  definingClass := m.definingClass
  name := m.name
  parameterTypes := m.parameterTypes
  parameters := m.parameters
  returnType := m.returnType
  flags := m.flags
  annotations := m.annotations.map StoredAnnotationItem.view
  hidden := m.hidden
  code := m.code.map fun code => code.map StoredCode.view

end StoredMethod

namespace StoredClass

/-- Reads the four sizes in front of the members. Every field takes at least
two bytes and every method three, which the sizes have to allow for. -/
def readCounts (view : StoredClass) (offset : Nat) : Read StoredClass := do
  let staticCount := (← Read.smallUleb128).toNat
  let instanceCount := (← Read.smallUleb128).toNat
  let directCount := (← Read.smallUleb128).toNat
  let virtualCount := (← Read.smallUleb128).toNat
  if 2 * (staticCount + instanceCount) + 3 * (directCount + virtualCount) > (← Read.remaining) then
    Read.fail (.memberCountsTooLarge offset staticCount instanceCount directCount virtualCount)
  return { view with staticCount, instanceCount, directCount, virtualCount }

/-- Reads the four sizes, behind which the members stand. -/
def readSizes (view : StoredClass) (offset : Nat) : Read StoredClass := do
  let counted ← view.readCounts offset
  return { counted with membersOffset := ← Read.mark }

/-- The class with an index. -/
def at? (image : Image) (index : UInt32) : Result StoredClass := do
  let item ← image.readAt (Layout.read : Read ClassDefItem) (← image.classDefOffset index)
  let directory ← (StoredDirectory.at? image item.annotationsOffset.toNat).within (.annotationsOf index.toNat)
  let view : StoredClass := { image, index, item, directory }
  let offset := item.classDataOffset.toNat
  if offset = 0 then return view
  image.readAt (view.readSizes offset) offset

/-! ## Members -/

/-- The number of members of a list. -/
def count (c : StoredClass) : MemberKind → Nat
  | .staticField => c.staticCount
  | .instanceField => c.instanceCount
  | .directMethod => c.directCount
  | .virtualMethod => c.virtualCount

/-- The number of members in front of a list. -/
def preceding (c : StoredClass) : MemberKind → Nat
  | .staticField => 0
  | .instanceField => c.staticCount
  | .directMethod => c.staticCount + c.instanceCount
  | .virtualMethod => c.staticCount + c.instanceCount + c.directCount

/-- The offset behind `count` LEB128 numbers. -/
def skipNumbers (image : Image) (offset count : Nat) : Result UInt32 :=
  (image.readAt · offset) do
    Read.repeated (discard Read.uleb128) count
    Read.mark

/-- Where a list begins: behind the lists in front of it, of two or three
numbers for each member. -/
def listStart (c : StoredClass) : MemberKind → Result UInt32
  | .staticField => .ok c.membersOffset
  | .instanceField => skipNumbers c.image c.membersOffset.toNat (2 * c.staticCount)
  | .directMethod => do
    let fields ← skipNumbers c.image c.membersOffset.toNat (2 * c.staticCount)
    skipNumbers c.image fields.toNat (2 * c.instanceCount)
  | .virtualMethod => do
    let fields ← skipNumbers c.image c.membersOffset.toNat (2 * c.staticCount)
    let direct ← skipNumbers c.image fields.toNat (2 * c.instanceCount)
    skipNumbers c.image direct.toNat (3 * c.directCount)

/-- Where the hidden API flags of the class begin, if it has any. -/
def hiddenStart (c : StoredClass) : Result (Option Nat) :=
  match c.image.hiddenApi with
  | none => .ok none
  | some start => do
    let relative ← c.image.readAt Read.smallUint (start + 4 + 4 * c.index.toNat)
    return if relative = 0 then none else some (start + relative.toNat)

/-- Where the initial values of the static fields begin, and how many there
are. -/
def staticValues (c : StoredClass) : Result (Option (UInt32 × Nat)) :=
  if c.item.staticValuesOffset = noOffset then .ok none
  else
    (c.image.readAt · c.item.staticValuesOffset.toNat) do
      let count := (← Read.smallUleb128).toNat
      return some (← Read.mark, count)

/-- Where the reading of a list begins. -/
def start (c : StoredClass) (kind : MemberKind) : Result MemberCursor := do
  let offset ← c.listStart kind
  let values ← if kind = .staticField then c.staticValues else pure none
  let hidden ←
    match ← c.hiddenStart with
    | none => pure none
    | some start => (skipNumbers c.image start (c.preceding kind)).map some
  return { offset, values, hidden }

/-- Reads what an entry itself holds: the difference of the indices, the flags
and, for a method, the offset of the code. -/
def readOwn (kind : MemberKind) : Read (UInt32 × UInt32 × Nat) := do
  let delta ← Read.uleb128
  let flags ← Read.smallUleb128
  let code ← if kind.isMethod then (·.toNat) <$> Read.smallUleb128 else pure 0
  return (delta, flags, code)

/-- Reads an entry itself, behind which the next one stands. -/
def readEntry (kind : MemberKind) : Read ((UInt32 × UInt32 × Nat) × UInt32) := do
  return (← readOwn kind, ← Read.mark)

/-- Steps over the initial value of the next field, if any is left. -/
def nextValue (image : Image) : Option (UInt32 × Nat) → Result (Option UInt32 × Option (UInt32 × Nat))
  | some (offset, left + 1) => do
    let next ← image.readAt (do Value.skip; Read.mark) offset.toNat
    return (some offset, some (next, left))
  | values => .ok (none, values)

/-- Reads the hidden API flags of the next member, if there are any. -/
def nextHidden (image : Image) : Option UInt32 → Result (Option UInt32 × Option UInt32)
  | none => .ok (none, none)
  | some offset => (image.readAt · offset.toNat) do
    let flags ← Read.uleb128
    return (some flags, some (← Read.mark))

/-- Reads the next entry of a list. Indices are added up in 32 bits. -/
def nextEntry (image : Image) (kind : MemberKind) (cursor : MemberCursor) :
    Result (MemberEntry × MemberCursor) := do
  let ((delta, flags, codeOffset), last) ← image.readAt (readEntry kind) cursor.offset.toNat
  let (valueOffset, values) ← nextValue image cursor.values
  let (hiddenFlags, hidden) ← nextHidden image cursor.hidden
  let index := cursor.previous + delta
  let size := (last - cursor.offset).toNat
  return ({ index, flags, codeOffset, size, valueOffset, hiddenFlags },
    { offset := last, previous := index, values, hidden })

/-- The next `count` entries of a list, up to the first that cannot be
read. -/
def entriesFrom (image : Image) (kind : MemberKind) : (count : Nat) → MemberCursor → List (Result MemberEntry)
  | 0, _ => []
  | count + 1, cursor =>
    match nextEntry image kind cursor with
    | .ok (entry, next) => .ok entry :: entriesFrom image kind count next
    | .error e => [.error (e.within (.classData cursor.offset.toNat))]

/-- The entries of a list, up to the first that cannot be read. -/
def entries (c : StoredClass) (kind : MemberKind) : List (Result MemberEntry) :=
  match c.start kind with
  | .ok cursor => entriesFrom c.image kind (c.count kind) cursor
  | .error e => [.error e]

/-- The number of items that a list seems to have: one failure if it cannot be
read at all. -/
def length (c : StoredClass) (kind : MemberKind) : Nat :=
  match c.start kind with
  | .ok _ => c.count kind
  | .error _ => 1

/-- The field of an entry. -/
def field (c : StoredClass) (entry : MemberEntry) : Result StoredField := do
  return {
    image := c.image, classIndex := c.item.type, index := entry.index, flags := ⟨entry.flags⟩
    valueOffset := entry.valueOffset, annotationsOffset := ← c.directory.fieldOffset entry.index
    hiddenFlags := entry.hiddenFlags }

/-- The method of an entry. -/
def method (c : StoredClass) (entry : MemberEntry) : Result StoredMethod := do
  return {
    image := c.image, classIndex := c.item.type, index := entry.index, flags := ⟨entry.flags⟩
    codeOffset := entry.codeOffset, entrySize := entry.size
    annotationsOffset := ← c.directory.methodOffset entry.index
    parametersOffset := ← c.directory.parameterOffset entry.index
    hiddenFlags := entry.hiddenFlags }

/-- The fields of a list. -/
def fields (c : StoredClass) (kind : MemberKind) : List (Result StoredField) :=
  (c.entries kind).map fun entry => entry >>= c.field

/-- The methods of a list. -/
def methods (c : StoredClass) (kind : MemberKind) : List (Result StoredMethod) :=
  (c.entries kind).map fun entry => entry >>= c.method

/-! ## The class itself -/

/-- The type of a class. -/
def type (c : StoredClass) : Result String :=
  c.image.type c.item.type

/-- The flags of a class. -/
def flags (c : StoredClass) : AccessFlags :=
  ⟨c.item.accessFlags⟩

/-- The superclass, if there is one. -/
def superclass (c : StoredClass) : Result (Option String) :=
  c.image.type? c.item.superclass

/-- The interfaces of a class. -/
def interfaces (c : StoredClass) : Result (List String) :=
  c.image.typeList c.item.interfacesOffset.toNat

/-- The name of the source file, if it is known. -/
def sourceFile (c : StoredClass) : Result (Option String) :=
  c.image.string? c.item.sourceFile

/-- The annotations of a class. -/
def annotations (c : StoredClass) : Items StoredAnnotationItem :=
  match c.directory.classOffset with
  | .ok offset => c.image.annotationSet offset
  | .error e => .failed e

/-- The view of a class. -/
def view (c : StoredClass) : ClassView where
  type := c.type
  flags := c.flags
  superclass := c.superclass
  interfaces := c.interfaces
  sourceFile := c.sourceFile
  annotations := c.annotations.map StoredAnnotationItem.view
  staticFields := (c.fields .staticField).map fun f => f.map StoredField.view
  instanceFields := (c.fields .instanceField).map fun f => f.map StoredField.view
  directMethods := (c.methods .directMethod).map fun m => m.map StoredMethod.view
  virtualMethods := (c.methods .virtualMethod).map fun m => m.map StoredMethod.view

end StoredClass

namespace Image

/-- The classes of a file. -/
def classes (image : Image) : Items StoredClass :=
  ⟨image.header.classDefs.size.toNat, fun i => StoredClass.at? image (UInt32.ofNat i)⟩

/-- The view of a file. -/
def view (image : Image) : FileView where
  opcodes := image.opcodes
  classes := image.classes.map StoredClass.view
  markers := image.markers

/-- The whole content of a file. -/
def toDexFile (image : Image) : Result DexFile :=
  image.view.toDexFile

end Image

end Dalvik
