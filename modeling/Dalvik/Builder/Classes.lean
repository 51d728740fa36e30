import Dalvik.Assembly.ClassOrder
import Dalvik.Assembly.Members
import Dalvik.Builder.Arenas

/-!
# Interned classes

When a class is added whatever it refers to is interned, and the class is kept with the
handles of its parts. The order of classes goes by handles: a class comes after those
that its superclass and its interfaces are the handles of. Members have to be in the order
of the indices of their handles.
-/

namespace Dalvik.Builder

/-- The handles of a field of a class. -/
structure InternedField where
  handle : Handle FieldKey
  annotations : Option (Handle AnnotationSetKey)

/-- The handles of a method of a class. -/
structure InternedMethod where
  handle : Handle MethodKey
  annotations : Option (Handle AnnotationSetKey)
  /-- There are none unless some parameter is annotated. -/
  parameterAnnotations : List (Option (Handle AnnotationSetKey))
  parameterNames : List (Option (Handle String))

/-- A class with its members in order, and the handles of what it is made of. -/
structure InternedClass where
  definition : ClassDef
  type : Handle TypeKey
  superclass : Option (Handle TypeKey)
  interfaces : Option (Handle TypeListKey)
  sourceFile : Option (Handle String)
  annotations : Option (Handle AnnotationSetKey)
  staticValues : Option (Handle (List Value))
  staticFields : List InternedField
  instanceFields : List InternedField
  directMethods : List InternedMethod
  virtualMethods : List InternedMethod

/-! ## Interning -/

def internDebugEvent : DebugEvent → Interning Unit
  | .startLocal _ name type signature => do
    discard (internString? name)
    discard (internString? signature)
    discard (internType? type)
  | .setFile name => discard (internString? name)
  | _ => return ()

def internCode (c : Code) : Interning Unit := do
  c.instructions.forM fun i => i.references.forM internReference
  c.tries.forM fun t => t.handlers.forM fun h => discard (internType? h.type)
  c.debug.forM fun d => internDebugEvent d.event

def internFieldDef (f : FieldDef) : Interning InternedField := do
  let handle ← internField f.sig
  let annotations ← internAnnotationSet f.annotations
  return { handle, annotations }

/-- The sets of annotations of the parameters; none if no parameter is annotated. -/
def internParameters (parameters : List Parameter) : Interning (List (Option (Handle AnnotationSetKey))) :=
  if parameters.any fun p => !p.annotations.isEmpty then parameters.mapM fun p => internAnnotationSet p.annotations
  else return []

def internMethodDef (m : MethodDef) : Interning InternedMethod := do
  let parameterAnnotations ← internParameters m.parameters
  let parameterNames ← m.parameters.mapM fun p => internString? p.name
  m.code.toList.forM internCode
  let handle ← internMethod m.sig
  let annotations ← internAnnotationSet m.annotations
  return { handle, annotations, parameterAnnotations, parameterNames }

/-- Interns the initial values of static fields, where there are any. -/
def internStaticValues (values : List Value) : Interning (Option (Handle (List Value))) :=
  if values.isEmpty then return none else some <$> internArray values

/-- Interns a class whose members are in order. -/
def internClass (c : ClassDef) : Interning InternedClass := do
  let type ← internType c.type
  let superclass ← internType? c.superclass
  let interfaces ← internTypeList c.interfaces
  let sourceFile ← internString? c.sourceFile
  let annotations ← internAnnotationSet c.annotations
  let staticValues ← internStaticValues c.staticValues
  let staticFields ← c.staticFields.mapM internFieldDef
  let instanceFields ← c.instanceFields.mapM internFieldDef
  let directMethods ← c.directMethods.mapM internMethodDef
  let virtualMethods ← c.virtualMethods.mapM internMethodDef
  return {
    definition := c
    type, superclass, interfaces, sourceFile, annotations, staticValues
    staticFields, instanceFields, directMethods, virtualMethods }

/-! ## The order of members -/

namespace InternedClass

variable (a : Arenas) (k : InternedClass)

/-- The lists of fields, with the fields that the handles stand for. -/
def fieldLists : List (List InternedField × List FieldDef) :=
  [(k.staticFields, k.definition.staticFields), (k.instanceFields, k.definition.instanceFields)]

/-- The lists of methods, with the methods that the handles stand for. -/
def methodLists : List (List InternedMethod × List MethodDef) :=
  [(k.directMethods, k.definition.directMethods), (k.virtualMethods, k.definition.virtualMethods)]

/-- The differences between the indices of the fields of a list. -/
def fieldDeltas (fields : List InternedField) : Result (List UInt32) :=
  Members.deltas (.fieldsOutOfOrder k.definition.type) none (fields.map fun f => a.fields.index f.handle)

/-- The differences between the indices of the methods of a list. -/
def methodDeltas (methods : List InternedMethod) : Result (List UInt32) :=
  Members.deltas (.methodsOutOfOrder k.definition.type) none (methods.map fun m => a.methods.index m.handle)

end InternedClass

/-! ## The order of classes -/

/-- The superclass and the interfaces of a class. -/
def InternedClass.supertypes (a : Arenas) (k : InternedClass) : List (Handle TypeKey) :=
  let interfaces :=
    match k.interfaces.map a.typeLists.key with
    | some (.ok list) => list.types
    | _ => []
  k.superclass.toList ++ interfaces

/-- The positions of classes by the handles of their types. -/
def positions (classes : List InternedClass) : Std.HashMap (Handle TypeKey) Nat :=
  Std.HashMap.ofList (classes.zipIdx.map fun (k, i) => (k.type, i))

/-- The classes in the order of a file. -/
def arrange (a : Arenas) (classes : List InternedClass) : List InternedClass :=
  let sorted := classes.mergeSort fun k l => a.types.index k.type ≤ a.types.index l.type
  let positions := positions sorted
  let parents := (sorted.map fun k => (k.supertypes a).filterMap fun t => positions[t]?).toArray
  let table := sorted.toArray
  (ClassOrder.walkOrder (fun i => parents[i]?.getD []) (List.range sorted.length)).filterMap fun i => table[i]?

end Dalvik.Builder
