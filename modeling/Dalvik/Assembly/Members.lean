import Dalvik.Assembly.Draft
import Dalvik.Assembly.Pools

/-!
# What is written about the members of a class

The class data lists the members, each with the difference of its index to that
of the member before. The annotations directory and the lists of annotations of
parameters say where annotations are. The hidden API data holds the
restrictions of all members of the classes that have any.
-/

namespace Dalvik.Members

/-! ## Class data -/

/-- The differences between indices that have to ascend. -/
def deltas (outOfOrder : Cause) (previous : Option UInt32) : List UInt32 → Result (List UInt32)
  | [] => .ok []
  | index :: rest => do
    let delta ←
      match previous with
      | none => pure index
      | some previous => if index ≤ previous then Result.fail outOfOrder else pure (index - previous)
    return delta :: (← deltas outOfOrder (some index) rest)

/-- The entry of a field in the class data. -/
def writeField (delta : UInt32) (f : FieldDef) : List UInt8 :=
  Write.uleb128 delta ++ Write.uleb128 f.flags.bits

/-- The entry of a method in the class data. -/
def writeMethod (codeOffsets : Std.HashMap MethodSig Nat) (delta : UInt32) (m : MethodDef) : List UInt8 :=
  Write.uleb128 delta ++ Write.uleb128 m.flags.bits ++ Write.uleb128 (offsetIn codeOffsets m.sig)

/-- The entries of a list of fields of a class. -/
def writeFields (p : Pools) (type : String) (fields : List FieldDef) : Result (List UInt8) := do
  let indices := fields.map fun f => p.fields.indexOrNone f.sig
  let deltas ← deltas (.fieldsOutOfOrder type) none indices
  return (deltas.zipWith writeField fields).flatten

/-- The entries of a list of methods of a class. -/
def writeMethods (p : Pools) (codeOffsets : Std.HashMap MethodSig Nat) (type : String)
    (methods : List MethodDef) : Result (List UInt8) := do
  let indices := methods.map fun m => p.methods.indexOrNone m.sig
  let deltas ← deltas (.methodsOutOfOrder type) none indices
  return (deltas.zipWith (writeMethod codeOffsets) methods).flatten

/-- The number of members of a list. -/
def writeCount (members : List α) : List UInt8 :=
  Write.uleb128 (UInt32.ofNat members.length)

/-- The class data of a class. -/
def writeClassData (p : Pools) (codeOffsets : Std.HashMap MethodSig Nat) (c : ClassDef) : Result (List UInt8) := do
  let staticFields ← writeFields p c.type c.staticFields
  let instanceFields ← writeFields p c.type c.instanceFields
  let directMethods ← writeMethods p codeOffsets c.type c.directMethods
  let virtualMethods ← writeMethods p codeOffsets c.type c.virtualMethods
  return writeCount c.staticFields ++ writeCount c.instanceFields ++ writeCount c.directMethods ++
    writeCount c.virtualMethods ++ staticFields ++ instanceFields ++ directMethods ++ virtualMethods

/-! ## Annotations -/

/-- The offsets of sets of annotations. -/
abbrev SetOffsets := Std.HashMap (List AnnotationItem) Nat

/-- The offset of the set of some annotations. -/
def setOffset (sets : SetOffsets) (annotations : List AnnotationItem) : UInt32 :=
  if annotations.isEmpty then noOffset else offsetIn sets (AnnotationItem.setOf annotations)

/-- The offsets of the sets of annotations of each parameter. -/
def parameterSets (sets : SetOffsets) (m : MethodDef) : OffsetList :=
  SizedList.ofItems (m.parameters.map fun p => ⟨setOffset sets p.annotations⟩)

/-- Whether any parameter of a method has annotations. -/
def hasParameterAnnotations (m : MethodDef) : Bool :=
  m.parameters.any fun p => !p.annotations.isEmpty

/-- Sorts the entries of a table of the directory by index. -/
def sortedEntries (entries : List (UInt32 × UInt32)) : List (UInt32 × UInt32) :=
  entries.mergeSort fun a b => a.1 < b.1 || a.1 == b.1 && a.2 ≤ b.2

/-- The annotations directory of a class. -/
def directory (p : Pools) (sets : SetOffsets) (parameterOffsets : Std.HashMap MethodSig Nat) (c : ClassDef) :
    DirectoryItem where
  classOffset := setOffset sets c.annotations
  fields := sortedEntries ((c.fields.filter fun f => !f.annotations.isEmpty).map fun f =>
    (p.fields.indexOrNone f.sig, setOffset sets f.annotations))
  methods := sortedEntries ((c.methods.filter fun m => !m.annotations.isEmpty).map fun m =>
    (p.methods.indexOrNone m.sig, setOffset sets m.annotations))
  parameters := sortedEntries ((c.methods.filter fun m => parameterOffsets.contains m.sig).map fun m =>
    (p.methods.indexOrNone m.sig, offsetIn parameterOffsets m.sig))

/-! ## Hidden API data -/

/-- The flags of all members of a class; none if no member is restricted. -/
def writeFlags (c : ClassDef) : List UInt8 :=
  if c.isRestricted then
    c.restrictions.flatMap fun r => Write.uleb128 (UInt32.ofNat ((r.map HiddenApi.value).getD 0))
  else []

/-- Where the flags of each class begin; zero if it has none. -/
def flagOffsets (start : Nat) : List (List UInt8) → List Nat
  | [] => []
  | flags :: rest => (if flags.isEmpty then 0 else start) :: flagOffsets (start + flags.length) rest

/-- The hidden API data of the classes of a file: the number of its bytes, the
place of the flags of each class, and the flags. -/
def writeHiddenApi (classes : List ClassDef) : List UInt8 :=
  let flags := classes.map writeFlags
  let start := 4 + 4 * classes.length
  let places := flagOffsets start flags
  Write.uint (UInt32.ofNat (start + flags.flatten.length)) ++
    places.flatMap (fun place => Write.uint (UInt32.ofNat place)) ++ flags.flatten

end Dalvik.Members
