/-!
# Kinds of sections
-/

namespace Dalvik

/-- The kinds of sections, as the map numbers them. -/
inductive ItemType where
  | header
  | stringId
  | typeId
  | protoId
  | fieldId
  | methodId
  | classDef
  | callSiteId
  | methodHandle
  | mapList
  | typeList
  | annotationSetRefList
  | annotationSet
  | classData
  | code
  | stringData
  | debugInfo
  | annotationItem
  | encodedArray
  | annotationsDirectory
  | hiddenApi
  deriving DecidableEq, Repr

namespace ItemType

/-- The number of a kind of section. -/
def typeCode : ItemType → UInt16
  | header => 0x0000
  | stringId => 0x0001
  | typeId => 0x0002
  | protoId => 0x0003
  | fieldId => 0x0004
  | methodId => 0x0005
  | classDef => 0x0006
  | callSiteId => 0x0007
  | methodHandle => 0x0008
  | mapList => 0x1000
  | typeList => 0x1001
  | annotationSetRefList => 0x1002
  | annotationSet => 0x1003
  | classData => 0x2000
  | code => 0x2001
  | stringData => 0x2002
  | debugInfo => 0x2003
  | annotationItem => 0x2004
  | encodedArray => 0x2005
  | annotationsDirectory => 0x2006
  | hiddenApi => 0xf000

end ItemType

end Dalvik
