import Dalvik.Layout.Basic

/-!
# Lists with a count

The count of a list stands elsewhere: in a header or in front of the list.
After every operation that changes the items, the count is their number. It
differs from it only when it was given first, to say how many items are to be
read, or when it was set from outside.
-/

namespace Dalvik

/-- Items and the count that is kept for them. -/
structure CountedList (α : Type) where
  items : List α
  count : UInt32
  deriving DecidableEq, Repr

namespace CountedList

variable {α : Type}

/-- No items yet, but a count of those to be read. -/
def ofCount (count : UInt32) : CountedList α :=
  ⟨[], count⟩

/-- The items with their number. -/
def ofItems (items : List α) : CountedList α :=
  ⟨items, UInt32.ofNat items.length⟩

/-- Sets the count to the number of items. -/
def refresh (l : CountedList α) : CountedList α :=
  ofItems l.items

/-- Sets the count from outside. -/
def setCount (l : CountedList α) (count : UInt32) : CountedList α :=
  { l with count }

/-- The number of items. -/
def length (l : CountedList α) : Nat :=
  l.items.length

/-- Whether there are no items. -/
def isEmpty (l : CountedList α) : Bool :=
  l.items.isEmpty

/-- The item at an index. -/
def get? (l : CountedList α) (index : Nat) : Option α :=
  l.items[index]?

/-- Changes the item at an index, without a look at the count. -/
def modify (l : CountedList α) (index : Nat) (f : α → α) : CountedList α :=
  { l with items := l.items.modify index f }

/-- Adds an item at the end. -/
def push (l : CountedList α) (item : α) : CountedList α :=
  ofItems (l.items ++ [item])

/-- Puts an item in front of the one at `index`, or at the end. -/
def insert (l : CountedList α) (index : Nat) (item : α) : Result (CountedList α) :=
  if index > l.items.length then .fail (.insertOutOfBounds index l.items.length)
  else .ok (ofItems (l.items.insertIdx index item))

/-- Takes out the item at `index`, if there is one. -/
def remove? (l : CountedList α) (index : Nat) : Option (α × CountedList α) :=
  l.items[index]?.map fun item => (item, ofItems (l.items.eraseIdx index))

/-- Keeps the first `size` items. -/
def truncate (l : CountedList α) (size : Nat) : CountedList α :=
  ofItems (l.items.take size)

/-- Drops all items. -/
def clear (_ : CountedList α) : CountedList α :=
  ofItems []

/-- The indices for which `resize` makes new items. -/
def missing (l : CountedList α) (size : Nat) : List Nat :=
  List.range' l.items.length (size - l.items.length)

/-- Cuts the list to `size` items or fills it up with `make index`. -/
def resize (l : CountedList α) (size : Nat) (make : Nat → α) : CountedList α :=
  ofItems (l.items.take size ++ (l.missing size).map make)

/-- Adds `count` items to a list, made for the indices from `index` on. -/
def fillFrom {m : Type → Type} [Monad m] (make : Nat → m α) (items : List α) (index : Nat) : (count : Nat) → m (List α)
  | 0 => return items
  | count + 1 => do
    let item ← make index
    fillFrom make (items ++ [item]) (index + 1) count

/-- Cuts the list to `size` items or fills it up, where making an item may have
effects. -/
def resizeM {m : Type → Type} [Monad m] (l : CountedList α) (size : Nat) (make : Nat → m α) : m (CountedList α) :=
  if size < l.items.length then return l.truncate size
  else return ofItems (← fillFrom make l.items l.items.length (size - l.items.length))

/-- Replaces the items by as many as the count says, read from `offset` on.
If that fails, the items stay. The count is refreshed in any case. -/
def read [Layout α] (l : CountedList α) (bytes : Bytes) (offset : Nat) : Result Nat × CountedList α :=
  match (Layout.readItems α l.count.toNat).on bytes offset with
  | (.ok items, next) => (.ok next, ofItems items)
  | (.error e, _) => (.error e, l.refresh)

/-- The bytes of the items. The count is refreshed. -/
def write [Layout α] (l : CountedList α) : List UInt8 × CountedList α :=
  (Layout.writeItems l.items, l.refresh)

end CountedList

/-- A list with its count in front, as a `uint`. -/
structure SizedList (α : Type) where
  list : CountedList α
  deriving DecidableEq, Repr

namespace SizedList

variable {α : Type}

/-- The list of given items. -/
def ofItems (items : List α) : SizedList α :=
  ⟨CountedList.ofItems items⟩

/-- The items of the list. -/
def items (l : SizedList α) : List α :=
  l.list.items

/-- The number of bytes that the list takes if an item takes `itemSize`. -/
def byteSize (l : SizedList α) (itemSize : Nat) : Nat :=
  4 + itemSize * l.list.length

instance [Layout α] : Layout (SizedList α) where
  read := do
    let count ← Read.smallUint
    return ofItems (← Layout.readItems α count.toNat)
  write l :=
    let list := l.list.refresh
    Write.uint list.count ++ list.write.1

end SizedList

end Dalvik
