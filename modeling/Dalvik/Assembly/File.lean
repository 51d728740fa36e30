import Dalvik.Assembly.Data
import Dalvik.Checksum
import Dalvik.Layout.Header

/-!
# Whole files

A file has a header, the identifier sections, the data and the map. The data
are written first, from the offset at which the identifier sections will end;
the identifiers point into them. The checksums are filled in at last.
-/

namespace Dalvik.Blueprint

/-! ## Identifier sections -/

/-- The identifier sections: the kind, the number of items and the size of an
item. -/
def idSections (b : Blueprint) : List (ItemType × Nat × Nat) :=
  [(.stringId, b.pools.strings.size, StringId.byteSize),
    (.typeId, b.pools.types.size, TypeId.byteSize),
    (.protoId, b.pools.protos.size, ProtoId.byteSize),
    (.fieldId, b.pools.fields.size, FieldId.byteSize),
    (.methodId, b.pools.methods.size, MethodId.byteSize),
    (.classDef, b.classes.length, ClassDefItem.byteSize),
    (.callSiteId, b.pools.callSites.size, CallSiteId.byteSize),
    (.methodHandle, b.pools.handles.size, MethodHandleId.byteSize)]

/-- Where sections of given sizes begin, one after the other. -/
def sectionStarts (start : Nat) : List (ItemType × Nat × Nat) → List (ItemType × Nat × Nat)
  | [] => []
  | (type, count, size) :: rest => (type, count, start) :: sectionStarts (start + count * size) rest

/-- Where the identifier sections end and the data begin. -/
def dataOffset (b : Blueprint) : Nat :=
  b.idSections.foldl (fun offset (_, count, size) => offset + count * size) Header.byteSize

/-- Where the strings begin, in the order of their indices. -/
def stringOffsets (b : Blueprint) : List UInt32 :=
  let (_, offsets) := Draft.place 1 { base := b.dataOffset } #[] b.stringItems
  offsets.toList.map fun entry => UInt32.ofNat entry.2

/-- The number of items and the offset of an identifier section, as the header
gives them. -/
def sectionOf (b : Blueprint) (type : ItemType) : Section :=
  match (sectionStarts Header.byteSize b.idSections).find? fun (t, _, _) => t == type with
  | some (_, count, start) => if count = 0 then {} else ⟨UInt32.ofNat count, UInt32.ofNat start⟩
  | none => {}

/-! ## Identifiers -/

/-- The entry of a prototype. -/
def protoId (b : Blueprint) (offsets : DataOffsets) (p : Prototype) : ProtoId where
  shorty := b.pools.strings.indexOrNone p.shorty
  returnType := b.pools.types.indexOrNone p.returnType
  parametersOffset := if p.parameters.isEmpty then noOffset else offsetIn offsets.typeLists p.parameters

/-- The entry of a field. -/
def fieldId (b : Blueprint) (f : FieldSig) : Result FieldId := do
  let definingClass ← narrow "type" (b.pools.types.indexOrNone f.definingClass).toNat
  let type ← narrow "type" (b.pools.types.indexOrNone f.type).toNat
  return { definingClass, type, name := b.pools.strings.indexOrNone f.name }

/-- The entry of a method. -/
def methodId (b : Blueprint) (m : MethodSig) : Result MethodId := do
  let definingClass ← narrow "type" (b.pools.types.indexOrNone m.definingClass).toNat
  let proto ← narrow "proto" (b.pools.protos.indexOrNone m.proto).toNat
  return { definingClass, proto, name := b.pools.strings.indexOrNone m.name }

/-- The definition of a class. -/
def classDefItem (b : Blueprint) (offsets : DataOffsets) (c : ClassDef) : ClassDefItem where
  type := b.pools.types.indexOrNone c.type
  accessFlags := c.flags.bits
  superclass := (c.superclass.map b.pools.types.indexOrNone).getD noIndex
  interfacesOffset := if c.interfaces.isEmpty then noOffset else offsetIn offsets.typeLists c.interfaces
  sourceFile := (c.sourceFile.map b.pools.strings.indexOrNone).getD noIndex
  annotationsOffset := offsetIn offsets.directories c.type
  classDataOffset := offsetIn offsets.classData c.type
  staticValuesOffset := if c.staticValues.isEmpty then noOffset else offsetIn offsets.arrays c.staticValues

/-- The index of the member of a handle. -/
def memberIndex (b : Blueprint) : HandleMember → UInt32
  | .field f => b.pools.fields.indexOrNone f
  | .method m => b.pools.methods.indexOrNone m

/-- The entry of a method handle. -/
def handleId (b : Blueprint) (h : MethodHandle) : Result MethodHandleId := do
  return ⟨UInt16.ofNat h.kind.code, ← narrow "member" (b.memberIndex h.member).toNat⟩

/-- The bytes of all identifier sections. -/
def writeIds (b : Blueprint) (offsets : DataOffsets) : Result (List UInt8) := do
  let pools := b.pools
  let strings := pools.strings.sortedKeys.map fun s => StringId.mk (offsetIn offsets.strings s)
  let types := pools.types.sortedKeys.map fun d => TypeId.mk (pools.strings.indexOrNone d)
  let protos := pools.protos.sortedKeys.map (b.protoId offsets)
  let fields ← pools.fields.sortedKeys.mapM b.fieldId
  let methods ← pools.methods.sortedKeys.mapM b.methodId
  let classes := b.classes.map (b.classDefItem offsets)
  let callSites := pools.callSites.sortedKeys.map fun c => CallSiteId.mk (offsetIn offsets.arrays c.values)
  let handles ← pools.handles.sortedKeys.mapM b.handleId
  return Layout.writeItems strings ++ Layout.writeItems types ++ Layout.writeItems protos ++
    Layout.writeItems fields ++ Layout.writeItems methods ++ Layout.writeItems classes ++
    Layout.writeItems callSites ++ Layout.writeItems handles

/-! ## The whole file -/

/-- The sections in front of the data, as the map lists them. -/
def leadingSections (b : Blueprint) : Draft :=
  (sectionStarts Header.byteSize b.idSections).foldl (fun d (type, count, start) => d.note type count start)
    ((Draft.startingAt 0).note .header 1 0)

/-- The data with the map at their end, and the offset of the map. -/
def withMap (b : Blueprint) (data : Draft) : Output × Nat :=
  let out := data.out.align 4
  let position := out.position
  let sections := (b.leadingSections.sections ++ data.sections).toList ++
    [⟨ItemType.mapList.typeCode, 1, UInt32.ofNat position⟩]
  (out.append (Layout.write (SizedList.ofItems sections : MapList)), position)

/-- The header of a file, without the checksums. -/
def header (b : Blueprint) (fileSize dataSize mapOffset : Nat) : Header where
  magic := Header.magicOf b.opcodes.version
  checksum := 0
  signature := Vector.replicate 20 0
  fileSize := UInt32.ofNat fileSize
  headerSize := UInt32.ofNat Header.byteSize
  endianTag := Header.littleEndianTag
  link := {}
  mapOffset := UInt32.ofNat mapOffset
  stringIds := b.sectionOf .stringId
  typeIds := b.sectionOf .typeId
  protoIds := b.sectionOf .protoId
  fieldIds := b.sectionOf .fieldId
  methodIds := b.sectionOf .methodId
  classDefs := b.sectionOf .classDef
  data := ⟨UInt32.ofNat dataSize, UInt32.ofNat b.dataOffset⟩

/-- The bytes of a header that the signature stands for begin here. -/
def signedFrom : Nat := 32

/-- The bytes of a header that the checksum stands for begin here. -/
def checkedFrom : Nat := 12

/-- Fills in the signature and then the checksum of a file. -/
def sealHeader (header : Header) (body : List UInt8) : Header :=
  let digest := Sha1.digest (header.write.drop signedFrom ++ body)
  let signed := { header with signature := ⟨digest.toArray, Sha1.length_digest _⟩ }
  { signed with checksum := Adler32.checksum (signed.write.drop checkedFrom ++ body) }

/-- The bytes of the file. -/
def write (b : Blueprint) : Result Bytes := do
  let (offsets, data) ← b.writeData.run (Draft.startingAt b.dataOffset)
  let (out, mapOffset) := b.withMap data
  let ids ← b.writeIds offsets
  -- the data have been written for this place
  if Header.byteSize + ids.length ≠ b.dataOffset then
    .fail (.idSectionsEnd (Header.byteSize + ids.length) b.dataOffset)
  let body := ids ++ out.bytes.toList
  let header := b.header (Header.byteSize + body.length) out.length mapOffset
  return ((sealHeader header body).write ++ body).toArray

end Dalvik.Blueprint
