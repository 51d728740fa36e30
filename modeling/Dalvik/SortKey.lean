import Dalvik.MethodHandle
import Dalvik.Text.Utf16

/-!
# Sort keys

The tables of a file are in the order of the strings that their entries are
made of, and strings are in the order of their UTF-16 units. A sort key lists
these strings, the most significant first.
-/

namespace Dalvik

/-- The units of the strings that decide an order. -/
abbrev SortKey := List (List UInt16)

namespace SortKey

/-- Strings are compared unit by unit, and keys string by string. What ends
first comes first. -/
def compare : SortKey → SortKey → Ordering :=
  List.compareLex (List.compareLex Ord.compare)

/-- The sort key of some strings. -/
def ofStrings (strings : List String) : SortKey :=
  strings.map Utf16.encode

/-- Strings, and likewise types, are in the order of their units. -/
def ofString (s : String) : SortKey :=
  ofStrings [s]

/-- Prototypes are in the order of their return types, then of their
parameters. -/
def ofProto (p : Prototype) : SortKey :=
  ofStrings (p.returnType :: p.parameters)

/-- Fields are in the order of their classes, then of their names and types. -/
def ofField (f : FieldSig) : SortKey :=
  ofStrings [f.definingClass, f.name, f.type]

/-- Methods are in the order of their classes, then of their names and
prototypes. -/
def ofMethod (m : MethodSig) : SortKey :=
  ofStrings [m.definingClass, m.name] ++ ofProto m.proto

/-- The members of handles are in the order of fields or of methods. -/
def ofMember : HandleMember → SortKey
  | .field f => ofField f
  | .method m => ofMethod m

/-- Handles are in the order of their kinds, then of their members. -/
def ofHandle (h : MethodHandle) : SortKey :=
  [UInt16.ofNat h.kind.code] :: ofMember h.member

end SortKey

end Dalvik
