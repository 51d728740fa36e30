import Std.Data.HashMap
import Std.Data.HashSet
import Dalvik.ClassDef

/-!
# The order of classes

In a file a class comes after its superclass and its interfaces, as far as
these are in the file and do not depend on the class in turn. Apart from that
classes are in the order of their types. The order is that in which a walk
leaves the classes: it enters a class once, walks through its supertypes and
then leaves it.
-/

namespace Dalvik.ClassOrder

/-- How far a walk has come. -/
structure Walk where
  /-- The nodes that have been entered. -/
  entered : Std.HashSet Nat := {}
  /-- The nodes that have been left, in this order. -/
  left : Array Nat := #[]

/-- Walks through a node. Every step down enters another node, so that `fuel`
need not exceed the number of nodes. -/
def visit (parents : Nat → List Nat) : (fuel : Nat) → Walk → (node : Nat) → Walk
  | 0, walk, _ => walk
  | fuel + 1, walk, node =>
    if walk.entered.contains node then walk
    else
      let walk := (parents node).foldl (visit parents fuel) { walk with entered := walk.entered.insert node }
      { walk with left := walk.left.push node }

/-- The nodes in the order in which a walk from the given starts leaves
them. -/
def walkOrder (parents : Nat → List Nat) (starts : List Nat) : List Nat :=
  (starts.foldl (visit parents starts.length) {}).left.toList

/-- The positions of classes by their types. -/
def positions (classes : List ClassDef) : Std.HashMap String Nat :=
  Std.HashMap.ofList (classes.zipIdx.map fun (c, i) => (c.type, i))

/-- The positions of the supertypes of each class. -/
def parentsOf (classes : List ClassDef) : Array (List Nat) :=
  let positions := positions classes
  (classes.map fun c => c.supertypes.filterMap fun t => positions[t]?).toArray

/-- The classes in the order of a file. -/
def arrange (classes : List ClassDef) : List ClassDef :=
  let sorted := ClassDef.sortedBy (fun c => SortKey.ofString c.type) classes
  let parents := parentsOf sorted
  let table := sorted.toArray
  (walkOrder (fun i => parents[i]?.getD []) (List.range sorted.length)).filterMap fun i => table[i]?

end Dalvik.ClassOrder
