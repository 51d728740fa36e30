import Dalvik.Pool

/-!
# Arenas

An arena keeps distinct keys and gives out a handle for each of them: its number in the
order in which the keys came, in 32 bits. Keys of one arena may hold handles of another.
An arena is sealed once, by sort keys. From then on it takes no more keys, and each key
has an index: its place in the order of the sort keys, where the handles decide between
equal ones. Only a sealed arena answers questions about its keys.

`Pool` is the same for keys that are spelled out, and gives them numbers without bound.
-/

namespace Dalvik

/-- A reference to a key of an arena. It stays valid for the life of the arena. -/
structure Handle (κ : Type) where
  /-- The number of the key in the order in which the keys came, not its index. -/
  id : UInt32
  deriving Repr

namespace Handle

variable {κ : Type}

instance : DecidableEq (Handle κ) := fun h k =>
  decidable_of_iff (h.id = k.id) ⟨fun heq => congrArg Handle.mk heq, congrArg Handle.id⟩

instance : Hashable (Handle κ) where
  hash h := hash h.id

instance : Ord (Handle κ) where
  compare := compareOn id

instance : Std.TransOrd (Handle κ) :=
  inferInstanceAs (Std.TransCmp (compareOn id))

instance : Std.LawfulEqOrd (Handle κ) where
  eq_of_compare {h k} heq := congrArg Handle.mk (Std.LawfulEqOrd.eq_of_compare (show compare h.id k.id = .eq from heq))

end Handle

namespace Arena

/-- What is fixed when an arena is sealed, and the offsets that are recorded afterwards. -/
structure Ranks where
  /-- The numbers of the keys in the order of their indices. -/
  order : Array UInt32
  /-- The index of each key. -/
  indices : Array UInt32
  /-- The offset of each key. -/
  offsets : Array UInt32

namespace Ranks

/-- The numbers of some keys in the order of their sort keys, and of the numbers among
equal ones. -/
def sortedIds (compare : σ → σ → Ordering) (sortKeys : List σ) : List UInt32 :=
  let numbered := sortKeys.zipIdx.map fun (sortKey, id) => (sortKey, UInt32.ofNat id)
  (numbered.mergeSort fun a b => ((compare a.1 b.1).then (Ord.compare a.2 b.2)).isLE).map (·.2)

/-- The index of each key, from the numbers of the keys in order. -/
def indicesOf (order : List UInt32) : Array UInt32 :=
  order.zipIdx.foldl (fun indices (id, index) => indices.setIfInBounds id.toNat (UInt32.ofNat index))
    (Array.replicate order.length noIndex)

/-- The ranks by sort keys, of which there is one for each key. -/
def ofSortKeys (compare : σ → σ → Ordering) (sortKeys : List σ) : Ranks :=
  let order := sortedIds compare sortKeys
  { order := order.toArray, indices := indicesOf order, offsets := Array.replicate order.length noOffset }

/-- The ranks as those of a pool. -/
def toRanking (r : Ranks) : Ranking where
  order := r.order.map UInt32.toNat
  indices := r.indices
  offsets := r.offsets

end Ranks

end Arena

/-- Distinct keys with their handles. -/
structure Arena (κ : Type) [BEq κ] [Hashable κ] where
  /-- What the keys are, for messages. -/
  name : String
  /-- The keys in the order in which they came. -/
  keys : Array κ := #[]
  /-- The numbers of the keys. -/
  ids : Std.HashMap κ UInt32 := {}
  ranks? : Option Arena.Ranks := none

namespace Arena

variable {κ : Type} [BEq κ] [Hashable κ]

/-- The number of keys. -/
def size (a : Arena κ) : Nat :=
  a.keys.size

/-- Whether the arena takes no more keys. -/
def isSealed (a : Arena κ) : Bool :=
  a.ranks?.isSome

/-- The arena with one more key, which is not in it. -/
def push (a : Arena κ) (key : κ) : Arena κ :=
  { a with keys := a.keys.push key, ids := a.ids.insert key (UInt32.ofNat a.keys.size) }

/-- Gives the handle of a key, which is added if it is new. -/
def intern (a : Arena κ) (key : κ) : Result (Handle κ × Arena κ) :=
  if a.isSealed then .fail (.poolFinalized a.name)
  else
    match a.ids[key]? with
    | some id => .ok (⟨id⟩, a)
    | none => .ok (⟨UInt32.ofNat a.keys.size⟩, a.push key)

/-- Seals an arena by sort keys, unless one of these cannot be had. -/
def sealBy (a : Arena κ) (compare : σ → σ → Ordering) (sortKey : κ → Result σ) : Result (Arena κ) :=
  if a.isSealed then .fail (.poolAlreadyFinalized a.name)
  else do
    let sortKeys ← (a.keys.toList.mapM sortKey).within (.pool a.name)
    return { a with ranks? := some (Ranks.ofSortKeys compare sortKeys) }

/-- The ranks of a sealed arena. -/
def ranks (a : Arena κ) : Result Ranks :=
  match a.ranks? with
  | some ranks => .ok ranks
  | none => .fail (.poolNotFinalized a.name)

/-- The key behind a handle. -/
def key (a : Arena κ) (h : Handle κ) : Result κ := do
  discard a.ranks
  match a.keys[h.id.toNat]? with
  | some key => return key
  | none => Result.fail (.handleUnknown a.name h.id.toNat)

/-- The index of the key behind a handle, or `noIndex` if it has none. -/
def index (a : Arena κ) (h : Handle κ) : UInt32 :=
  match a.ranks? with
  | some ranks => ranks.indices[h.id.toNat]?.getD noIndex
  | none => noIndex

/-- The offset that is recorded for a handle, or `noOffset`. -/
def offset (a : Arena κ) (h : Handle κ) : UInt32 :=
  match a.ranks? with
  | some ranks => ranks.offsets[h.id.toNat]?.getD noOffset
  | none => noOffset

/-- Records the offset of a handle. -/
def setOffset (a : Arena κ) (h : Handle κ) (offset : UInt32) : Result (Arena κ) := do
  let ranks ← a.ranks
  if h.id.toNat < a.size then
    return { a with ranks? := some { ranks with offsets := ranks.offsets.setIfInBounds h.id.toNat offset } }
  else Result.fail (.handleUnknown a.name h.id.toNat)

/-- Finds the handle of a key. The message of the failure shows the key as `spell`
spells it. -/
def lookup (a : Arena κ) (spell : κ → String) (key : κ) : Result (Handle κ) := do
  discard a.ranks
  match a.ids[key]? with
  | some id => return ⟨id⟩
  | none => Result.fail (.notInPool a.name (spell key))

/-- Finds the index of a key. -/
def indexOf (a : Arena κ) (spell : κ → String) (key : κ) : Result UInt32 :=
  (a.lookup spell key).map a.index

/-- The handles and their keys, in the order of the indices. -/
def sorted (a : Arena κ) : Result (List (Handle κ × κ)) := do
  let ranks ← a.ranks
  return ranks.order.toList.filterMap fun id => a.keys[id.toNat]?.map (⟨id⟩, ·)

/-- The pool of what the keys stand for, in the same order and ranked alike. A key that
stands for nothing is left out. -/
def spelled {α : Type} [BEq α] [Hashable α] (a : Arena κ) (spell? : κ → Option α) : Pool α :=
  { (a.keys.toList.filterMap spell?).foldl Pool.insert { name := a.name } with
    ranking? := a.ranks?.map Ranks.toRanking }

end Arena

end Dalvik
