import Dalvik.Arena
import Dalvik.Assembly.Pools
import Dalvik.ClassDef

/-!
# The arenas of a file in the making

A builder keeps an arena for each kind of entry. The key of an entry is made of the
handles of its parts: that of a type is the handle of its descriptor, that of a method
the handles of its class, its name and its prototype. Only constants and annotations are
keys that spell out what they are made of. To intern something is to intern its parts
first and then the key that their handles make.

The arenas are sealed one after the other, those of parts first. The sort key of a key is
its rank: the indices of its parts, the most significant first. Only strings, constants
and annotations are sorted by what they say.
-/

namespace Dalvik.Builder

/-! ## Keys -/

structure TypeKey where
  name : Handle String
  deriving DecidableEq, Hashable

structure TypeListKey where
  types : List (Handle TypeKey)
  deriving DecidableEq, Hashable

/-- No parameters have no list of types. -/
structure ProtoKey where
  shorty : Handle String
  returnType : Handle TypeKey
  parameters : Option (Handle TypeListKey)
  deriving DecidableEq, Hashable

structure FieldKey where
  definingClass : Handle TypeKey
  name : Handle String
  type : Handle TypeKey
  deriving DecidableEq, Hashable

structure MethodKey where
  definingClass : Handle TypeKey
  name : Handle String
  proto : Handle ProtoKey
  deriving DecidableEq, Hashable

inductive MemberKey where
  | field (h : Handle FieldKey)
  | method (h : Handle MethodKey)
  deriving DecidableEq, Hashable

structure MethodHandleKey where
  kind : HandleKind
  member : MemberKey
  deriving DecidableEq, Hashable

structure CallSiteKey where
  array : Handle (List Value)
  deriving DecidableEq, Hashable

/-- The annotations of a set, in the order of their handles. -/
structure AnnotationSetKey where
  annotations : List (Handle AnnotationItem)
  deriving DecidableEq, Hashable

/-! ## Arenas -/

/-- An arena for each kind of entry. -/
structure Arenas where
  strings : Arena String := { name := "string" }
  types : Arena TypeKey := { name := "type" }
  typeLists : Arena TypeListKey := { name := "type list" }
  protos : Arena ProtoKey := { name := "proto" }
  fields : Arena FieldKey := { name := "field" }
  methods : Arena MethodKey := { name := "method" }
  handles : Arena MethodHandleKey := { name := "method handle" }
  arrays : Arena (List Value) := { name := "encoded array" }
  callSites : Arena CallSiteKey := { name := "call site" }
  annotations : Arena AnnotationItem := { name := "annotation" }
  annotationSets : Arena AnnotationSetKey := { name := "annotation set" }

/-- Work on arenas. What was interned before a failure stays there. -/
abbrev Interning := ExceptT Error (StateM Arenas)

/-- Interns a key in one of the arenas, which `arena` picks out and `put` replaces. -/
def internIn {κ : Type} [BEq κ] [Hashable κ] (arena : Arenas → Arena κ) (put : Arenas → Arena κ → Arenas) (key : κ) :
    Interning (Handle κ) :=
  ExceptT.mk fun a =>
    match (arena a).intern key with
    | .ok (h, b) => (.ok h, put a b)
    | .error e => (.error e, a)

/-! ## Interning -/

def internString (s : String) : Interning (Handle String) :=
  internIn Arenas.strings (fun a strings => { a with strings }) s

def internType (descriptor : String) : Interning (Handle TypeKey) := do
  let name ← internString descriptor
  internIn Arenas.types (fun a types => { a with types }) ⟨name⟩

/-- The empty list has no handle. -/
def internTypeList (types : List String) : Interning (Option (Handle TypeListKey)) := do
  if types.isEmpty then return none
  let handles ← types.mapM internType
  some <$> internIn Arenas.typeLists (fun a typeLists => { a with typeLists }) ⟨handles⟩

def internProto (p : Prototype) : Interning (Handle ProtoKey) := do
  let shorty ← internString p.shorty
  let returnType ← internType p.returnType
  let parameters ← internTypeList p.parameters
  internIn Arenas.protos (fun a protos => { a with protos }) ⟨shorty, returnType, parameters⟩

def internField (f : FieldSig) : Interning (Handle FieldKey) := do
  let definingClass ← internType f.definingClass
  let name ← internString f.name
  let type ← internType f.type
  internIn Arenas.fields (fun a fields => { a with fields }) ⟨definingClass, name, type⟩

def internMethod (m : MethodSig) : Interning (Handle MethodKey) := do
  let definingClass ← internType m.definingClass
  let name ← internString m.name
  let proto ← internProto m.proto
  internIn Arenas.methods (fun a methods => { a with methods }) ⟨definingClass, name, proto⟩

def internMember : HandleMember → Interning MemberKey
  | .field f => .field <$> internField f
  | .method m => .method <$> internMethod m

def internHandle (h : MethodHandle) : Interning (Handle MethodHandleKey) := do
  let member ← internMember h.member
  internIn Arenas.handles (fun a handles => { a with handles }) ⟨h.kind, member⟩

mutual

/-- Interns whatever a constant refers to. The constant itself has no handle. -/
def internValue : Value → Interning Unit
  | .proto p => discard (internProto p)
  | .handle h => discard (internHandle h)
  | .string s => discard (internString s)
  | .type d => discard (internType d)
  | .field f => discard (internField f)
  | .enum f => discard (internField f)
  | .method m => discard (internMethod m)
  | .array values => internValues values
  | .nested t elements => do
    discard (internType t)
    internElements elements
  | _ => return ()
termination_by structural v => v

def internValues : List Value → Interning Unit
  | [] => return ()
  | v :: vs => do
    internValue v
    internValues vs
termination_by structural vs => vs

def internElements : List (String × Value) → Interning Unit
  | [] => return ()
  | (name, v) :: vs => do
    discard (internString name)
    internValue v
    internElements vs
termination_by structural vs => vs

end

def internArray (values : List Value) : Interning (Handle (List Value)) := do
  internValues values
  internIn Arenas.arrays (fun a arrays => { a with arrays }) values

def internCallSite (c : CallSite) : Interning (Handle CallSiteKey) := do
  let array ← internArray c.values
  internIn Arenas.callSites (fun a callSites => { a with callSites }) ⟨array⟩

/-- The elements of an annotation are put in order. -/
def internAnnotationItem (a : AnnotationItem) : Interning (Handle AnnotationItem) := do
  discard (internType a.arranged.type)
  internElements a.arranged.elements
  internIn Arenas.annotations (fun a annotations => { a with annotations }) a.arranged

/-- The different handles of a list, in order. -/
def handlesInOrder {κ : Type} (handles : List (Handle κ)) : List (Handle κ) :=
  (handles.mergeSort fun h k => (compare h k).isLE).eraseReps

/-- The empty set has no handle. -/
def internAnnotationSet (annotations : List AnnotationItem) : Interning (Option (Handle AnnotationSetKey)) := do
  if annotations.isEmpty then return none
  let handles ← annotations.mapM internAnnotationItem
  some <$> internIn Arenas.annotationSets (fun a annotationSets => { a with annotationSets }) ⟨handlesInOrder handles⟩

def internReference : Reference → Interning Unit
  | .string s => discard (internString s)
  | .type d => discard (internType d)
  | .field f => discard (internField f)
  | .method m => discard (internMethod m)
  | .proto p => discard (internProto p)
  | .handle h => discard (internHandle h)
  | .callSite c => discard (internCallSite c)

/-- Interns a string that may be missing. -/
def internString? (s : Option String) : Interning (Option (Handle String)) :=
  match s with
  | some s => some <$> internString s
  | none => return none

/-- Interns a type that may be missing. -/
def internType? (descriptor : Option String) : Interning (Option (Handle TypeKey)) :=
  match descriptor with
  | some d => some <$> internType d
  | none => return none

/-! ## Ranks -/

/-- Ranks are compared index by index. What ends first comes first. -/
def compareRanks : List UInt32 → List UInt32 → Ordering :=
  List.compareLex compare

namespace Arenas

variable (a : Arenas)

def typeRank (k : TypeKey) : List UInt32 :=
  [a.strings.index k.name]

def typeListRank (k : TypeListKey) : List UInt32 :=
  k.types.map a.types.index

/-- The indices of the types of the parameters. -/
def parameterRank : Option (Handle TypeListKey) → Result (List UInt32)
  | some h => (a.typeLists.key h).map a.typeListRank
  | none => .ok []

/-- The index of the return type, and then those of the parameters. -/
def protoRank (k : ProtoKey) : Result (List UInt32) :=
  (a.parameterRank k.parameters).map (a.types.index k.returnType :: ·)

def fieldRank (k : FieldKey) : List UInt32 :=
  [a.types.index k.definingClass, a.strings.index k.name, a.types.index k.type]

def methodRank (k : MethodKey) : List UInt32 :=
  [a.types.index k.definingClass, a.strings.index k.name, a.protos.index k.proto]

/-- The index of a member among the fields or the methods. -/
def memberIndex : MemberKey → UInt32
  | .field h => a.fields.index h
  | .method h => a.methods.index h

/-- The number of the kind, and then the index of the member. -/
def handleRank (k : MethodHandleKey) : List UInt32 :=
  [UInt32.ofNat k.kind.code, a.memberIndex k.member]

def callSiteRank (k : CallSiteKey) : List UInt32 :=
  [a.arrays.index k.array]

/-- The indices of the annotations of a set, in order. -/
def annotationSetRank (k : AnnotationSetKey) : List UInt32 :=
  (k.annotations.map a.annotations.index).mergeSort (· ≤ ·)

/-! ## Sealing -/

/-- Whether the arenas are sealed. -/
def isFinalized : Bool :=
  a.strings.isSealed

/-- Seals all arenas, each by the indices of those that were sealed before. -/
def finalize (a : Arenas) : Result Arenas := do
  let a := { a with strings := ← a.strings.sealBy (List.compareLex compare) fun s => .ok (Utf16.encode s) }
  let a := { a with types := ← a.types.sealBy compareRanks fun k => .ok (a.typeRank k) }
  let a := { a with typeLists := ← a.typeLists.sealBy compareRanks fun k => .ok (a.typeListRank k) }
  let a := { a with protos := ← a.protos.sealBy compareRanks a.protoRank }
  let a := { a with fields := ← a.fields.sealBy compareRanks fun k => .ok (a.fieldRank k) }
  let a := { a with methods := ← a.methods.sealBy compareRanks fun k => .ok (a.methodRank k) }
  let a := { a with handles := ← a.handles.sealBy compareRanks fun k => .ok (a.handleRank k) }
  let a := { a with arrays := ← a.arrays.sealBy Value.compareValues .ok }
  let a := { a with callSites := ← a.callSites.sealBy compareRanks fun k => .ok (a.callSiteRank k) }
  let a := { a with annotations := ← a.annotations.sealBy compare .ok }
  let a := { a with annotationSets := ← a.annotationSets.sealBy compareRanks fun k => .ok (a.annotationSetRank k) }
  return a

end Arenas

end Dalvik.Builder
