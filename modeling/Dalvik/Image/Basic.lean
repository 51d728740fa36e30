import Dalvik.ClassDef
import Dalvik.Items
import Dalvik.Layout.Header
import Dalvik.Layout.Items
import Dalvik.Layout.ItemType
import Dalvik.Value.Decode

/-!
# File images

An `Image` is the bytes of a file together with what its header and its map
say about where things are. Everything else is read when it is asked for, so
that damage in one part does not keep other parts from being read.
-/

namespace Dalvik

/-- The bytes of a file and the places of its sections. -/
structure Image where
  bytes : Bytes
  header : Header
  opcodes : Opcodes
  callSites : Section := {}
  methodHandles : Section := {}
  hiddenApi : Option Nat := none

namespace Image

/-- Reads from an offset of the image. -/
def readAt (image : Image) (step : Read α) (offset : Nat) : Result α :=
  step.at? image.bytes offset

/-- Makes sure that an offset lies inside the image or at its end. -/
def reach (image : Image) (offset : Nat) : Result Unit :=
  image.readAt (return ()) offset

/-! ## Opening -/

/-- Takes note of a section that only the map tells of. Of two entries of one
kind the later counts. -/
def noteSection (image : Image) (item : MapItem) : Image :=
  if item.type = ItemType.callSiteId.typeCode then { image with callSites := ⟨item.size, item.offset⟩ }
  else if item.type = ItemType.methodHandle.typeCode then { image with methodHandles := ⟨item.size, item.offset⟩ }
  else if item.type = ItemType.hiddenApi.typeCode then { image with hiddenApi := some item.offset.toNat }
  else image

/-- The image with a header that has been read. The file may be longer than
the header says, but not shorter. -/
def ofHeader (bytes : Bytes) (header : Header) (opcodes : Opcodes) : Result Image := do
  if header.fileSize.toNat > bytes.size then
    Result.fail (.fileSizeTooLarge header.fileSize.toNat bytes.size)
  let image : Image := { bytes, header, opcodes }
  if header.mapOffset = noOffset then return image
  let offset := header.mapOffset.toNat
  image.reach offset
  let map ← (image.readAt (Layout.read : Read MapList) offset).within .mapList
  return map.items.foldl noteSection image

/-- Opens a file with given opcodes, whatever its version. -/
def openWith (bytes : Bytes) (opcodes : Opcodes) : Result Image := do
  ofHeader bytes (← Read.at? Header.read bytes 0) opcodes

/-- Opens a file with the opcodes of its version. -/
def ofBytes (bytes : Bytes) : Result Image := do
  let header ← Read.at? Header.read bytes 0
  let opcodes ← Opcodes.ofVersion (← header.version)
  ofHeader bytes header opcodes

/-! ## Items by index -/

/-- The offset of an item among `count` items of `size` bytes each. -/
def itemOffset (what : String) (index count : UInt32) (start size : Nat) : Result Nat :=
  if index < count then .ok (start + index.toNat * size)
  else .fail (.indexOutOfBounds what index.toNat count.toNat)

/-- The offset of an item of a section. -/
def sectionOffset (s : Section) (what : String) (index : UInt32) (size : Nat) : Result Nat :=
  itemOffset what index s.size s.offset.toNat size

/-- The offset of the identifier of a field. -/
def fieldIdOffset (image : Image) (index : UInt32) : Result Nat :=
  sectionOffset image.header.fieldIds "Field" index FieldId.byteSize

/-- The offset of the identifier of a method. -/
def methodIdOffset (image : Image) (index : UInt32) : Result Nat :=
  sectionOffset image.header.methodIds "Method" index MethodId.byteSize

/-- The offset of the identifier of a prototype. -/
def protoIdOffset (image : Image) (index : UInt32) : Result Nat :=
  sectionOffset image.header.protoIds "Proto" index ProtoId.byteSize

/-- The offset of the definition of a class. -/
def classDefOffset (image : Image) (index : UInt32) : Result Nat :=
  sectionOffset image.header.classDefs "Class def" index ClassDefItem.byteSize

/-- The string with an index. -/
def string (image : Image) (index : UInt32) : Result String := do
  let id ← sectionOffset image.header.stringIds "String" index StringId.byteSize
  let data ← image.readAt Read.smallUint id
  image.reach data.toNat
  (image.readAt Read.stringData data.toNat).within (.string index.toNat)

/-- The type with an index. -/
def type (image : Image) (index : UInt32) : Result String := do
  let id ← sectionOffset image.header.typeIds "Type" index TypeId.byteSize
  image.string (← image.readAt Read.smallUint id)

/-- The string with an index, unless it is the index of nothing. -/
def string? (image : Image) (index : UInt32) : Result (Option String) :=
  if index = noIndex then .ok none else (image.string index).map some

/-- The type with an index, unless it is the index of nothing. -/
def type? (image : Image) (index : UInt32) : Result (Option String) :=
  if index = noIndex then .ok none else (image.type index).map some

/-- The types of the list at an offset; there are none at the offset of
nothing. -/
def typeList (image : Image) (offset : Nat) : Result (List String) := do
  if offset = 0 then return []
  image.reach offset
  let types ← (image.readAt (Layout.read : Read TypeList) offset).within (.typeList offset)
  types.items.mapM fun entry => image.type (UInt32.ofNat entry.type.toNat)

/-- The field with an index. -/
def field (image : Image) (index : UInt32) : Result FieldSig := do
  let item ← image.readAt (Layout.read : Read FieldId) (← image.fieldIdOffset index)
  let definingClass ← image.type (UInt32.ofNat item.definingClass.toNat)
  let name ← image.string item.name
  let type ← image.type (UInt32.ofNat item.type.toNat)
  return { definingClass, name, type }

/-- The prototype with an index. -/
def proto (image : Image) (index : UInt32) : Result Prototype := do
  let item ← image.readAt (Layout.read : Read ProtoId) (← image.protoIdOffset index)
  let parameters ← image.typeList item.parametersOffset.toNat
  let returnType ← image.type item.returnType
  return { parameters, returnType }

/-- The method with an index. -/
def method (image : Image) (index : UInt32) : Result MethodSig := do
  let item ← image.readAt (Layout.read : Read MethodId) (← image.methodIdOffset index)
  let proto ← image.proto (UInt32.ofNat item.proto.toNat)
  let definingClass ← image.type (UInt32.ofNat item.definingClass.toNat)
  let name ← image.string item.name
  return { definingClass, name, parameters := proto.parameters, returnType := proto.returnType }

/-- The method handle with an index. -/
def handle (image : Image) (index : UInt32) : Result MethodHandle := do
  let offset ← sectionOffset image.methodHandles "Method handle" index MethodHandleId.byteSize
  let item ← image.readAt (Layout.read : Read MethodHandleId) offset
  let kind ← HandleKind.ofCode item.kind.toNat
  let member := UInt32.ofNat item.member.toNat
  if kind.accessesField then MethodHandle.make kind (.field (← image.field member))
  else MethodHandle.make kind (.method (← image.method member))

/-- What the constants of the image refer to. -/
def valueResolver (image : Image) : ValueResolver where
  string := image.string
  type := image.type
  field := image.field
  method := image.method
  proto := image.proto
  handle := image.handle

/-- The call site with an index. -/
def callSite (image : Image) (index : UInt32) : Result CallSite := do
  let id ← sectionOffset image.callSites "Call site" index CallSiteId.byteSize
  let offset ← image.readAt Read.smallUint id
  image.reach offset.toNat
  let values ← (image.readAt (Value.decodeArray image.valueResolver) offset.toNat).within
    (.callSite index.toNat)
  match CallSite.ofValues? values with
  | some site => return site
  | none => Result.fail (.callSiteMalformed index.toNat)

/-- All references of the image. -/
def resolver (image : Image) : Resolver :=
  { image.valueResolver with callSite := image.callSite }

/-! ## Whole sections -/

/-- What the entries of a section stand for. -/
def entries (s : Section) (get : UInt32 → Result α) : Items α :=
  ⟨s.size.toNat, fun i => get (UInt32.ofNat i)⟩

/-- All strings of the image. -/
def strings (image : Image) : Items String :=
  entries image.header.stringIds image.string

/-- All types of the image. -/
def types (image : Image) : Items String :=
  entries image.header.typeIds image.type

/-- All prototypes of the image. -/
def protos (image : Image) : Items Prototype :=
  entries image.header.protoIds image.proto

/-- All fields that the image names. -/
def fields (image : Image) : Items FieldSig :=
  entries image.header.fieldIds image.field

/-- All methods that the image names. -/
def methods (image : Image) : Items MethodSig :=
  entries image.header.methodIds image.method

/-! ## Markers -/

/-- The markers among the first `count` strings, the last one first. A marker
sorts after every string that is below the start of markers, so that the
search ends at the first of these. -/
def markersBelow (image : Image) : (count : Nat) → Result (List Marker)
  | 0 => .ok []
  | count + 1 => do
    let s ← image.string (UInt32.ofNat count)
    if s.startsWith Marker.start then
      let rest ← image.markersBelow count
      return (Marker.parse? s).toList ++ rest
    else if (Utf16.compare s Marker.start).isLT then return []
    else image.markersBelow count

/-- The markers of the file, in the order of the strings. -/
def markers (image : Image) : Result (List Marker) := do
  return (← image.markersBelow image.header.stringIds.size.toNat).reverse

end Image

end Dalvik
