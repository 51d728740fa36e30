import Std.Data.HashMap
import Dalvik.View

/-!
# Class paths

A class path looks for a class in several files, one after the other. Within a
file the first definition of a type counts.
-/

namespace Dalvik

/-- The classes of a file by their types. -/
structure ClassTable where
  classes : Std.HashMap String ClassView

namespace ClassTable

/-- Adds `count` classes from an index on. -/
def addFrom (table : Std.HashMap String ClassView) (classes : Items ClassView) :
    (index count : Nat) → Result (Std.HashMap String ClassView)
  | _, 0 => .ok table
  | index, count + 1 => do
    let c ← classes.get index
    addFrom (table.insertIfNew (← c.type) c) classes (index + 1) count

/-- The classes of a file. -/
def ofFile (file : FileView) : Result ClassTable := do
  return ⟨← addFrom {} file.classes 0 file.classes.count⟩

/-- The number of classes. -/
def size (t : ClassTable) : Nat :=
  t.classes.size

/-- Whether there are no classes. -/
def isEmpty (t : ClassTable) : Bool :=
  t.classes.isEmpty

/-- The class of a type, if it is in the file. -/
def find? (t : ClassTable) (type : String) : Option ClassView :=
  t.classes[type]?

end ClassTable

/-- Files in the order in which they are searched. -/
structure ClassPath where
  tables : List ClassTable := []

namespace ClassPath

/-- Adds a file that is searched last. -/
def add (path : ClassPath) (table : ClassTable) : ClassPath :=
  ⟨path.tables ++ [table]⟩

/-- The first class of a type. -/
def find (path : ClassPath) (type : String) : Result ClassView :=
  match path.tables.findSome? fun table => table.find? type with
  | some c => .ok c
  | none => .fail (.classUnresolved type)

end ClassPath

end Dalvik
