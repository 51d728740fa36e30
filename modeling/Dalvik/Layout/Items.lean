import Dalvik.Layout.CountedList

/-!
# Items of fixed layout

The entries of the identifier sections, the class definitions, the entries of
the map and of the lists of types and offsets, and the annotations directory.
An offset of zero means that there is nothing, and an index of `noIndex` that
nothing is named.
-/

namespace Dalvik

/-- The index that names nothing. -/
def noIndex : UInt32 := 0xffffffff

/-- The offset of nothing. -/
def noOffset : UInt32 := 0

/-- A string, by the offset of its data. -/
structure StringId where
  dataOffset : UInt32
  deriving DecidableEq, Repr

/-- A type, by the index of its descriptor. -/
structure TypeId where
  descriptor : UInt32
  deriving DecidableEq, Repr

/-- A prototype: its short form, its return type and its parameter list. -/
structure ProtoId where
  shorty : UInt32
  returnType : UInt32
  parametersOffset : UInt32
  deriving DecidableEq, Repr

/-- A field: its class, its type and its name. -/
structure FieldId where
  definingClass : UInt16
  type : UInt16
  name : UInt32
  deriving DecidableEq, Repr

/-- A method: its class, its prototype and its name. -/
structure MethodId where
  definingClass : UInt16
  proto : UInt16
  name : UInt32
  deriving DecidableEq, Repr

/-- A class definition, by indices and offsets. -/
structure ClassDefItem where
  type : UInt32
  accessFlags : UInt32
  superclass : UInt32
  interfacesOffset : UInt32
  sourceFile : UInt32
  annotationsOffset : UInt32
  classDataOffset : UInt32
  staticValuesOffset : UInt32
  deriving DecidableEq, Repr

/-- A call site, by the offset of its values. -/
structure CallSiteId where
  valuesOffset : UInt32
  deriving DecidableEq, Repr

/-- A method handle: its kind and the index of the field or method. -/
structure MethodHandleId where
  kind : UInt16
  member : UInt16
  deriving DecidableEq, Repr

/-- One section in the map. -/
structure MapItem where
  type : UInt16
  size : UInt32
  offset : UInt32
  deriving DecidableEq, Repr

/-- A type in a list of types. -/
structure TypeEntry where
  type : UInt16
  deriving DecidableEq, Repr

/-- An offset in a list of offsets. -/
structure OffsetEntry where
  offset : UInt32
  deriving DecidableEq, Repr

/-- The list of all sections. -/
abbrev MapList := SizedList MapItem

/-- A list of types. -/
abbrev TypeList := SizedList TypeEntry

/-- A list of offsets, such as a set of annotations. -/
abbrev OffsetList := SizedList OffsetEntry

/-- Where the annotations of a class and of its members are. Each entry of a
table is the index of a member and an offset. -/
structure DirectoryItem where
  classOffset : UInt32 := 0
  fields : List (UInt32 × UInt32) := []
  methods : List (UInt32 × UInt32) := []
  parameters : List (UInt32 × UInt32) := []
  deriving DecidableEq, Repr

namespace StringId

/-- The bytes of one entry. -/
def byteSize : Nat := 4

instance : Layout StringId where
  read := return ⟨← Read.smallUint⟩
  write i := Write.uint i.dataOffset

end StringId

namespace TypeId

/-- The bytes of one entry. -/
def byteSize : Nat := 4

instance : Layout TypeId where
  read := return ⟨← Read.smallUint⟩
  write i := Write.uint i.descriptor

end TypeId

namespace ProtoId

/-- The bytes of one entry. -/
def byteSize : Nat := 12

instance : Layout ProtoId where
  read := return ⟨← Read.smallUint, ← Read.smallUint, ← Read.smallUint⟩
  write i := Write.uint i.shorty ++ Write.uint i.returnType ++ Write.uint i.parametersOffset

end ProtoId

namespace FieldId

/-- The bytes of one entry. -/
def byteSize : Nat := 8

instance : Layout FieldId where
  read := return ⟨← Read.ushort, ← Read.ushort, ← Read.smallUint⟩
  write i := Write.ushort i.definingClass ++ Write.ushort i.type ++ Write.uint i.name

end FieldId

namespace MethodId

/-- The bytes of one entry. -/
def byteSize : Nat := 8

instance : Layout MethodId where
  read := return ⟨← Read.ushort, ← Read.ushort, ← Read.smallUint⟩
  write i := Write.ushort i.definingClass ++ Write.ushort i.proto ++ Write.uint i.name

end MethodId

namespace ClassDefItem

/-- The bytes of one entry. -/
def byteSize : Nat := 32

instance : Layout ClassDefItem where
  read := return {
    type := ← Read.uint
    accessFlags := ← Read.uint
    superclass := ← Read.uint
    interfacesOffset := ← Read.uint
    sourceFile := ← Read.uint
    annotationsOffset := ← Read.uint
    classDataOffset := ← Read.uint
    staticValuesOffset := ← Read.uint }
  write i :=
    Write.uint i.type ++ Write.uint i.accessFlags ++ Write.uint i.superclass ++
      Write.uint i.interfacesOffset ++ Write.uint i.sourceFile ++ Write.uint i.annotationsOffset ++
      Write.uint i.classDataOffset ++ Write.uint i.staticValuesOffset

end ClassDefItem

namespace CallSiteId

/-- The bytes of one entry. -/
def byteSize : Nat := 4

instance : Layout CallSiteId where
  read := return ⟨← Read.smallUint⟩
  write i := Write.uint i.valuesOffset

end CallSiteId

namespace MethodHandleId

/-- The bytes of one entry. -/
def byteSize : Nat := 8

instance : Layout MethodHandleId where
  read := do
    let kind ← Read.ushort
    Read.skip 2
    let member ← Read.ushort
    Read.skip 2
    return ⟨kind, member⟩
  write i := Write.ushort i.kind ++ Write.ushort 0 ++ Write.ushort i.member ++ Write.ushort 0

end MethodHandleId

namespace MapItem

/-- The bytes of one entry. -/
def byteSize : Nat := 12

instance : Layout MapItem where
  read := do
    let type ← Read.ushort
    Read.skip 2
    return ⟨type, ← Read.smallUint, ← Read.smallUint⟩
  write i := Write.ushort i.type ++ Write.ushort 0 ++ Write.uint i.size ++ Write.uint i.offset

end MapItem

instance : Layout TypeEntry where
  read := return ⟨← Read.ushort⟩
  write i := Write.ushort i.type

instance : Layout OffsetEntry where
  read := return ⟨← Read.smallUint⟩
  write i := Write.uint i.offset

namespace DirectoryItem

/-- Whether the class has no annotations at all. -/
def isEmpty (d : DirectoryItem) : Bool :=
  d.classOffset == 0 && d.fields.isEmpty && d.methods.isEmpty && d.parameters.isEmpty

/-- Reads one entry of a table. -/
def readEntry : Read (UInt32 × UInt32) := do
  return (← Read.smallUint, ← Read.smallUint)

/-- The bytes of one entry of a table. -/
def writeEntry (entry : UInt32 × UInt32) : List UInt8 :=
  Write.uint entry.1 ++ Write.uint entry.2

/-- The number of entries of a table. -/
def count (table : List (UInt32 × UInt32)) : UInt32 :=
  UInt32.ofNat table.length

instance : Layout DirectoryItem where
  read := do
    let classOffset ← Read.smallUint
    let fieldCount ← Read.smallUint
    let methodCount ← Read.smallUint
    let parameterCount ← Read.smallUint
    let fields ← Read.times readEntry fieldCount.toNat
    let methods ← Read.times readEntry methodCount.toNat
    let parameters ← Read.times readEntry parameterCount.toNat
    return { classOffset, fields, methods, parameters }
  write d :=
    Write.uint d.classOffset ++ Write.uint (count d.fields) ++ Write.uint (count d.methods) ++
      Write.uint (count d.parameters) ++ (d.fields ++ d.methods ++ d.parameters).flatMap writeEntry

end DirectoryItem

end Dalvik
