import Dalvik.Assembly.Entry
import Dalvik.Pool

/-!
# The pools of a file

There is a pool for each kind of entry. They are finalized together, each by an
order of its own. A finalized set of pools numbers references: it finds the
index of each reference whose parts are all there. A failure names the key
that is missing, by the ids of its parts.
-/

namespace Dalvik

/-- The entries that have been gathered. -/
structure Pools where
  strings : Pool String := { name := "string" }
  types : Pool String := { name := "type" }
  typeLists : Pool (List String) := { name := "type list" }
  protos : Pool Prototype := { name := "proto" }
  fields : Pool FieldSig := { name := "field" }
  methods : Pool MethodSig := { name := "method" }
  handles : Pool MethodHandle := { name := "method handle" }
  arrays : Pool (List Value) := { name := "encoded array" }
  callSites : Pool CallSite := { name := "call site" }
  annotations : Pool AnnotationItem := { name := "annotation" }
  annotationSets : Pool (List AnnotationItem) := { name := "annotation set" }

namespace Pools

/-! ## Gathering -/

/-- The name of the pool of an entry, and whether that pool is finalized. -/
def poolOf (p : Pools) : Entry → String × Bool
  | .string _ => (p.strings.name, p.strings.isFinalized)
  | .type _ => (p.types.name, p.types.isFinalized)
  | .typeList _ => (p.typeLists.name, p.typeLists.isFinalized)
  | .proto _ => (p.protos.name, p.protos.isFinalized)
  | .field _ => (p.fields.name, p.fields.isFinalized)
  | .method _ => (p.methods.name, p.methods.isFinalized)
  | .handle _ => (p.handles.name, p.handles.isFinalized)
  | .array _ => (p.arrays.name, p.arrays.isFinalized)
  | .callSite _ => (p.callSites.name, p.callSites.isFinalized)
  | .annotationItem _ => (p.annotations.name, p.annotations.isFinalized)
  | .annotationSet _ => (p.annotationSets.name, p.annotationSets.isFinalized)

/-- The pools with one more entry, unless it is there already. -/
def insert (p : Pools) : Entry → Pools
  | .string s => { p with strings := p.strings.insert s }
  | .type d => { p with types := p.types.insert d }
  | .typeList ts => { p with typeLists := p.typeLists.insert ts }
  | .proto q => { p with protos := p.protos.insert q }
  | .field f => { p with fields := p.fields.insert f }
  | .method m => { p with methods := p.methods.insert m }
  | .handle h => { p with handles := p.handles.insert h }
  | .array vs => { p with arrays := p.arrays.insert vs }
  | .callSite c => { p with callSites := p.callSites.insert c }
  | .annotationItem a => { p with annotations := p.annotations.insert a }
  | .annotationSet as => { p with annotationSets := p.annotationSets.insert as }

/-- Fails if the pool of an entry is finalized. -/
def accept (p : Pools) (entry : Entry) : Result Unit :=
  let (name, finalized) := p.poolOf entry
  if finalized then .fail (.poolFinalized name) else .ok ()

/-- The pools with more entries. -/
def insertAll (p : Pools) (entries : List Entry) : Pools :=
  entries.foldl insert p

/-- The id of an entry, if it is there. -/
def id? (p : Pools) : Entry → Option Nat
  | .string s => p.strings.id? s
  | .type d => p.types.id? d
  | .typeList ts => p.typeLists.id? ts
  | .proto q => p.protos.id? q
  | .field f => p.fields.id? f
  | .method m => p.methods.id? m
  | .handle h => p.handles.id? h
  | .array vs => p.arrays.id? vs
  | .callSite c => p.callSites.id? c
  | .annotationItem a => p.annotations.id? a
  | .annotationSet as => p.annotationSets.id? as

/-! ## Finalizing -/

/-- Finalizes a pool by sort keys of strings. -/
def finalizeByKey [BEq α] [Hashable α] (pool : Pool α) (key : α → SortKey) : Result (Pool α) :=
  pool.finalizeBy SortKey.compare fun a => .ok (key a)

/-- Finalizes a pool by an order of its keys. -/
def finalizeByOrder [BEq α] [Hashable α] (pool : Pool α) (compare : α → α → Ordering) : Result (Pool α) :=
  pool.finalizeBy compare .ok

/-- Whether the pools are finalized. -/
def isFinalized (p : Pools) : Bool :=
  p.strings.isFinalized

/-- Finalizes all pools. The order of each is the one that the format
demands, or where it demands none the order of the constants themselves. -/
def finalize (p : Pools) : Result Pools := do
  return {
    strings := ← finalizeByKey p.strings SortKey.ofString
    types := ← finalizeByKey p.types SortKey.ofString
    typeLists := ← finalizeByKey p.typeLists SortKey.ofStrings
    protos := ← finalizeByKey p.protos SortKey.ofProto
    fields := ← finalizeByKey p.fields SortKey.ofField
    methods := ← finalizeByKey p.methods SortKey.ofMethod
    handles := ← finalizeByKey p.handles SortKey.ofHandle
    arrays := ← finalizeByOrder p.arrays Value.compareValues
    callSites := ← finalizeByOrder p.callSites fun a b => Value.compareValues a.values b.values
    annotations := ← finalizeByOrder p.annotations compare
    annotationSets := ← finalizeByOrder p.annotationSets (List.compareLex compare) }

/-! ## Numbering -/

/-- How messages name an id. -/
def spellId (id : Nat) : String :=
  Text.tagged "Handle" [toString id]

/-- How messages name an id that may be missing. -/
def spellId? : Option Nat → String
  | some id => Text.tagged "Some" [spellId id]
  | none => "None"

/-- The id of a string. -/
def findString (p : Pools) (s : String) : Result Nat :=
  p.strings.lookup Text.quoted s

/-- The id of a type. -/
def findType (p : Pools) (descriptor : String) : Result Nat := do
  let name ← p.findString descriptor
  p.types.lookup (fun _ => Text.tagged "TypeKey" [spellId name]) descriptor

/-- The id of a list of types; the empty list has none. -/
def findTypeList (p : Pools) (types : List String) : Result (Option Nat) := do
  if types.isEmpty then return none
  let ids ← types.mapM p.findType
  p.typeLists.lookup (fun _ => Text.tagged "TypeListKey" [Text.bracketed (ids.map spellId)]) types

/-- The id of a prototype. -/
def findProto (p : Pools) (proto : Prototype) : Result Nat := do
  let shorty ← p.findString proto.shorty
  let returnType ← p.findType proto.returnType
  let parameters ← p.findTypeList proto.parameters
  let spell (_ : Prototype) : String :=
    Text.record "ProtoKey" [("shorty", spellId shorty), ("return_type", spellId returnType),
      ("parameters", spellId? parameters)]
  p.protos.lookup spell proto

/-- The id of a field. -/
def findField (p : Pools) (f : FieldSig) : Result Nat := do
  let definingClass ← p.findType f.definingClass
  let name ← p.findString f.name
  let type ← p.findType f.type
  let spell (_ : FieldSig) : String :=
    Text.record "FieldKey" [("class", spellId definingClass), ("name", spellId name), ("field_type", spellId type)]
  p.fields.lookup spell f

/-- The id of a method. -/
def findMethod (p : Pools) (m : MethodSig) : Result Nat := do
  let definingClass ← p.findType m.definingClass
  let name ← p.findString m.name
  let proto ← p.findProto m.proto
  let spell (_ : MethodSig) : String :=
    Text.record "MethodKey" [("class", spellId definingClass), ("name", spellId name), ("proto", spellId proto)]
  p.methods.lookup spell m

/-- The id of the member of a handle, as messages name it. -/
def findMember (p : Pools) : HandleMember → Result String
  | .field f => (p.findField f).map fun id => Text.tagged "Field" [spellId id]
  | .method m => (p.findMethod m).map fun id => Text.tagged "Method" [spellId id]

/-- The id of a method handle. -/
def findHandle (p : Pools) (h : MethodHandle) : Result Nat := do
  let member ← p.findMember h.member
  p.handles.lookup (fun _ => Text.record "MethodHandleKey" [("handle_type", h.kind.name), ("member", member)]) h

/-- The id of a call site. -/
def findCallSite (p : Pools) (c : CallSite) : Result Nat := do
  let spell (values : List Value) : String :=
    Text.tagged "EncodedArrayKey" [Text.bracketed (Value.spelledValues values)]
  let array ← p.arrays.lookup spell c.values
  p.callSites.lookup (fun _ => Text.tagged "CallSiteKey" [spellId array]) c

/-- The indices that finalized pools give to references. -/
def numbering (p : Pools) : Numbering where
  string s := (p.findString s).map p.strings.index
  type d := (p.findType d).map p.types.index
  field f := (p.findField f).map p.fields.index
  method m := (p.findMethod m).map p.methods.index
  proto q := (p.findProto q).map p.protos.index
  handle h := (p.findHandle h).map p.handles.index
  callSite c := (p.findCallSite c).map p.callSites.index

end Pools

end Dalvik
