import Dalvik.Assembly.CodeItem
import Dalvik.Assembly.Members
import Dalvik.DebugInfo
import Dalvik.Value.Encode

/-!
# The data of a file

The data are written section by section: strings, lists of types, constants,
annotations and where they are, debug information, code and class data. A
section points only at those before it.
-/

namespace Dalvik

/-- What a file is made from: finalized pools, and the classes in order. -/
structure Blueprint where
  opcodes : Opcodes
  pools : Pools
  classes : List ClassDef

namespace Blueprint

/-! ## Items of the data -/

/-- The data of all strings. -/
def stringItems (b : Blueprint) : List (String × List UInt8) :=
  b.pools.strings.sortedKeys.map fun s => (s, Write.stringData s)

/-- All lists of types. -/
def typeListItems (b : Blueprint) : Result (List (List String × List UInt8)) :=
  b.pools.typeLists.sortedKeys.mapM fun types => do
    let entries ← types.mapM fun t => TypeEntry.mk <$> narrow "type" (b.pools.types.indexOrNone t).toNat
    return (types, Layout.write (SizedList.ofItems entries : TypeList))

/-- All lists of constants. -/
def arrayItems (b : Blueprint) : Result (List (List Value × List UInt8)) :=
  b.pools.arrays.sortedKeys.mapM fun values => do
    return (values, ← Value.encodeArray b.pools.numbering.toValueNumbering values)

/-- All annotations. -/
def annotationItems (b : Blueprint) : Result (List (AnnotationItem × List UInt8)) :=
  b.pools.annotations.sortedKeys.mapM fun a => do
    let body ← Value.encodeBody b.pools.numbering.toValueNumbering a.type a.elements
    return (a, UInt8.ofNat a.visibility.code :: body)

/-- All sets of annotations, each in the order of the types. -/
def annotationSetItems (b : Blueprint) (offsets : Std.HashMap AnnotationItem Nat) :
    Result (List (List AnnotationItem × List UInt8)) :=
  b.pools.annotationSets.sortedKeys.mapM fun set => do
    let entries ← set.mapM fun a => do return (← b.pools.numbering.type a.type, offsetIn offsets a)
    let sorted := (Members.sortedEntries entries).map fun entry => OffsetEntry.mk entry.2
    return (set, Layout.write (SizedList.ofItems sorted : OffsetList))

/-- All methods, in the order of their classes. -/
def methods (b : Blueprint) : List (ClassDef × MethodDef) :=
  b.classes.flatMap fun c => c.methods.map fun m => (c, m)

/-- The lists of annotations of the parameters of methods. -/
def parameterItems (b : Blueprint) (sets : Members.SetOffsets) : List (MethodSig × List UInt8) :=
  (b.methods.filter fun (_, m) => Members.hasParameterAnnotations m).map fun (_, m) =>
    (m.sig, Layout.write (Members.parameterSets sets m))

/-- The annotations directories of the classes that need one. -/
def directoryItems (b : Blueprint) (sets : Members.SetOffsets) (parameterOffsets : Std.HashMap MethodSig Nat) :
    List (String × List UInt8) :=
  (b.classes.map fun c => (c.type, Members.directory b.pools sets parameterOffsets c)).filterMap
    fun (type, directory) => if directory.isEmpty then none else some (type, Layout.write directory)

/-- The debug information of a method, if there is any. -/
def debugItem? (b : Blueprint) (c : ClassDef) (m : MethodDef) : Result (Option (MethodSig × List UInt8)) := do
  let names := m.parameters.map (·.name)
  match m.code with
  | none => return none
  | some code =>
    if code.debug.isEmpty && names.all Option.isNone then return none
    let bytes ← (DebugInfo.encode b.pools.numbering names code.debug).within (.debugInfoOf c.type)
    return some (m.sig, bytes)

/-- The code item of a method, if it has code. -/
def codeItem? (b : Blueprint) (debugOffsets : Std.HashMap MethodSig Nat) (c : ClassDef) (m : MethodDef) :
    Result (Option (MethodSig × List UInt8)) := do
  match m.code with
  | none => return none
  | some code =>
    let item := CodeItem.encode b.pools.numbering b.opcodes m code (offsetIn debugOffsets m.sig)
    return some (m.sig, ← item.within (.codeOf c.type))

/-- The debug information of all methods. -/
def debugItems (b : Blueprint) : Result (List (MethodSig × List UInt8)) := do
  return (← b.methods.mapM fun (c, m) => b.debugItem? c m).filterMap id

/-- The code items of all methods. -/
def codeItems (b : Blueprint) (debugOffsets : Std.HashMap MethodSig Nat) : Result (List (MethodSig × List UInt8)) := do
  return (← b.methods.mapM fun (c, m) => b.codeItem? debugOffsets c m).filterMap id

/-- The class data of the classes that have members. -/
def classDataItems (b : Blueprint) (codeOffsets : Std.HashMap MethodSig Nat) : Result (List (String × List UInt8)) :=
  (b.classes.filter ClassDef.hasMembers).mapM fun c => do
    return (c.type, ← Members.writeClassData b.pools codeOffsets c)

/-- The hidden API data, if any class needs them. -/
def hiddenApiItems (b : Blueprint) : List (Unit × List UInt8) :=
  if b.classes.any ClassDef.isRestricted then [((), Members.writeHiddenApi b.classes)] else []

/-! ## The data -/

/-- The offsets of those data that identifiers point at. -/
structure DataOffsets where
  strings : Std.HashMap String Nat
  typeLists : Std.HashMap (List String) Nat
  arrays : Std.HashMap (List Value) Nat
  directories : Std.HashMap String Nat
  classData : Std.HashMap String Nat

/-- Writes the data section by section. -/
def writeData (b : Blueprint) : Draft.Write DataOffsets := do
  let strings ← Draft.writeSection .stringData 1 b.stringItems
  let typeLists ← Draft.writeSection .typeList 4 (← b.typeListItems)
  let arrays ← Draft.writeSection .encodedArray 1 (← b.arrayItems)
  let annotations ← Draft.writeSection .annotationItem 1 (← b.annotationItems)
  -- the three sections that follow consist of words: no padding is needed behind this
  Draft.align 4
  let sets ← Draft.writeSection .annotationSet 1 (← b.annotationSetItems annotations)
  let parameters ← Draft.writeSection .annotationSetRefList 1 (b.parameterItems sets)
  let directories ← Draft.writeSection .annotationsDirectory 1 (b.directoryItems sets parameters)
  let debug ← Draft.writeSection .debugInfo 1 (← b.debugItems)
  let code ← Draft.writeSection .code 4 (← b.codeItems debug)
  let classData ← Draft.writeSection .classData 1 (← b.classDataItems code)
  discard (Draft.writeSection .hiddenApi 4 b.hiddenApiItems)
  return { strings, typeLists, arrays, directories, classData }

end Blueprint

end Dalvik
