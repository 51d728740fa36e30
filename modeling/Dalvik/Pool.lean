import Std.Data.HashMap
import Dalvik.Layout.Items

/-!
# Pools

A pool gathers distinct keys and gives each of them an id: its place in the
order in which they came. A pool is finalized once, by sort keys. From then on
it takes no more keys, and each key has an index: its place in the order of the
sort keys, where the ids decide between equal ones. Only a finalized pool
answers questions about its keys.
-/

namespace Dalvik

/-- What is fixed when a pool is finalized, and the offsets that are recorded
afterwards. -/
structure Ranking where
  /-- The ids in the order of their indices. -/
  order : Array Nat
  /-- The index of each id. -/
  indices : Array UInt32
  /-- The offset of each id. -/
  offsets : Array UInt32

namespace Ranking

/-- The index that each id has in an order of ids. -/
def indicesOf (order : List Nat) : Array UInt32 :=
  order.zipIdx.foldl (fun indices (id, index) => indices.setIfInBounds id (UInt32.ofNat index))
    (Array.replicate order.length noIndex)

/-- The ids in the order of their sort keys. -/
def sortedIds (compare : σ → σ → Ordering) (sortKeys : List σ) : List Nat :=
  (sortKeys.zipIdx.mergeSort fun a b => (compare a.1 b.1).isLE).map (·.2)

/-- The ranking by sort keys, of which there is one for each id. -/
def ofSortKeys (compare : σ → σ → Ordering) (sortKeys : List σ) : Ranking :=
  let order := sortedIds compare sortKeys
  { order := order.toArray, indices := indicesOf order, offsets := Array.replicate order.length noOffset }

end Ranking

/-- Distinct keys with their ids. -/
structure Pool (α : Type) [BEq α] [Hashable α] where
  /-- What the keys are, for messages. -/
  name : String
  /-- The keys by their ids. -/
  keys : Array α := #[]
  /-- The ids of the keys. -/
  ids : Std.HashMap α Nat := {}
  ranking? : Option Ranking := none

namespace Pool

variable {α : Type} [BEq α] [Hashable α]

/-- The number of keys. -/
def size (p : Pool α) : Nat :=
  p.keys.size

/-- Whether there are no keys. -/
def isEmpty (p : Pool α) : Bool :=
  p.keys.isEmpty

/-- Whether the pool takes no more keys. -/
def isFinalized (p : Pool α) : Bool :=
  p.ranking?.isSome

/-- The pool with one more key, unless it is there already. -/
def insert (p : Pool α) (key : α) : Pool α :=
  if p.ids.contains key then p
  else
    let id := p.keys.size
    { p with keys := p.keys.push key, ids := p.ids.insert key id }

/-- Inserts a key into a pool that is not finalized. -/
def intern (p : Pool α) (key : α) : Result (Pool α) :=
  if p.isFinalized then .fail (.poolFinalized p.name) else .ok (p.insert key)

/-- The id of a key, if it is in the pool. -/
def id? (p : Pool α) (key : α) : Option Nat :=
  p.ids[key]?

/-- Finalizes a pool by sort keys, unless one of these cannot be had. -/
def finalizeBy (p : Pool α) (compare : σ → σ → Ordering) (sortKey : α → Result σ) : Result (Pool α) :=
  if p.isFinalized then .fail (.poolAlreadyFinalized p.name)
  else do
    let sortKeys ← (p.keys.toList.mapM sortKey).within (.pool p.name)
    return { p with ranking? := some (Ranking.ofSortKeys compare sortKeys) }

/-- The ranking of a finalized pool. -/
def ranking (p : Pool α) : Result Ranking :=
  match p.ranking? with
  | some ranking => .ok ranking
  | none => .fail (.poolNotFinalized p.name)

/-- The key with an id. -/
def key (p : Pool α) (id : Nat) : Result α := do
  discard p.ranking
  match p.keys[id]? with
  | some key => return key
  | none => Result.fail (.handleUnknown p.name id)

/-- The index of an id, or `noIndex` if it has none. -/
def index (p : Pool α) (id : Nat) : UInt32 :=
  match p.ranking? with
  | some ranking => ranking.indices[id]?.getD noIndex
  | none => noIndex

/-- The offset that is recorded for an id, or `noOffset`. -/
def offset (p : Pool α) (id : Nat) : UInt32 :=
  match p.ranking? with
  | some ranking => ranking.offsets[id]?.getD noOffset
  | none => noOffset

/-- Records the offset of an id. -/
def setOffset (p : Pool α) (id : Nat) (offset : UInt32) : Result (Pool α) := do
  let ranking ← p.ranking
  if id < p.size then
    return { p with ranking? := some { ranking with offsets := ranking.offsets.setIfInBounds id offset } }
  else Result.fail (.handleUnknown p.name id)

/-- Records offsets of all ids, given in the order of the indices. -/
def setOffsets (p : Pool α) (offsets : List UInt32) : Pool α :=
  match p.ranking? with
  | some ranking =>
    let recorded := (ranking.order.toList.zip offsets).foldl
      (fun recorded (id, offset) => recorded.setIfInBounds id offset) ranking.offsets
    { p with ranking? := some { ranking with offsets := recorded } }
  | none => p

/-- Finds the id of a key. The message of the failure shows the key as
`spell` spells it. -/
def lookup (p : Pool α) (spell : α → String) (key : α) : Result Nat := do
  discard p.ranking
  match p.id? key with
  | some id => return id
  | none => Result.fail (.notInPool p.name (spell key))

/-- Finds the index of a key. -/
def indexOf (p : Pool α) (spell : α → String) (key : α) : Result UInt32 :=
  (p.lookup spell key).map p.index

/-- The index of a key, or `noIndex` if it has none. -/
def indexOrNone (p : Pool α) (key : α) : UInt32 :=
  match p.id? key with
  | some id => p.index id
  | none => noIndex

/-- The ids and their keys, in the order of the indices. -/
def sorted (p : Pool α) : Result (List (Nat × α)) := do
  let ranking ← p.ranking
  return ranking.order.toList.filterMap fun id => p.keys[id]?.map (id, ·)

/-- The keys in the order of the indices; none before the pool is
finalized. -/
def sortedKeys (p : Pool α) : List α :=
  match p.sorted with
  | .ok entries => entries.map (·.2)
  | .error _ => []

end Pool

end Dalvik
