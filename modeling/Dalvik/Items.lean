import Dalvik.Error

/-!
# Items that are read one by one

A collection of an image has a number of items, each of which may fail on its
own. The number comes from the file and may be far too large, so that items
are only read when they are asked for.
-/

namespace Dalvik

/-- `count` items, by their index. -/
structure Items (α : Type) where
  count : Nat
  get : Nat → Result α

namespace Items

variable {α β : Type}

/-- No items. -/
def none : Items α :=
  ⟨0, fun i => .fail (.indexOutOfBounds "Item" i 0)⟩

/-- What stands for a collection that cannot be read: one item that fails. -/
def failed (e : Error) : Items α :=
  ⟨1, fun _ => .error e⟩

/-- The items of a list, none of which fails. -/
def ofList (l : List α) : Items α :=
  ⟨l.length, fun i =>
    match l[i]? with
    | some item => .ok item
    | Option.none => .fail (.indexOutOfBounds "Item" i l.length)⟩

/-- Reads something else for each item. -/
def andThen (items : Items α) (f : α → Result β) : Items β :=
  ⟨items.count, fun i => items.get i >>= f⟩

/-- Changes each item. -/
def map (f : α → β) (items : Items α) : Items β :=
  ⟨items.count, fun i => (items.get i).map f⟩

/-- The first items, at most `limit` of them, failed or not. -/
def first (items : Items α) (limit : Nat) : List (Result α) :=
  (List.range (min items.count limit)).map items.get

/-- The `count` items from an index on, or the first failure among them. -/
def collectFrom (items : Items α) : (index count : Nat) → Result (List α)
  | _, 0 => .ok []
  | index, count + 1 => do
    let first ← items.get index
    return first :: (← items.collectFrom (index + 1) count)

/-- All items, or the first failure. -/
def collect (items : Items α) : Result (List α) :=
  items.collectFrom 0 items.count

end Items

/-- The values of a list of outcomes, or the first failure. -/
def Result.collect {α : Type} (l : List (Result α)) : Result (List α) :=
  l.mapM id

end Dalvik
