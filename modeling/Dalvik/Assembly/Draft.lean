import Std.Data.HashMap
import Dalvik.Layout.Items
import Dalvik.Layout.ItemType
import Dalvik.Output

/-!
# Drafts

A draft is a part of a file that is written section by section. The items of a
section have keys, by which their offsets are found afterwards. Sections that
have items are noted for the map.
-/

namespace Dalvik

/-- A part of a file with its sections so far. -/
structure Draft where
  out : Output
  sections : Array MapItem := #[]

namespace Draft

/-- Writing to a draft. -/
abbrev Write := StateT Draft Result

/-- An empty draft that starts at an offset. -/
def startingAt (base : Nat) : Draft :=
  { out := { base } }

/-- Notes a section, unless it is empty. -/
def note (d : Draft) (type : ItemType) (count offset : Nat) : Draft :=
  if count = 0 then d
  else { d with sections := d.sections.push ⟨type.typeCode, UInt32.ofNat count, UInt32.ofNat offset⟩ }

/-- Adds zeros until the draft ends at a multiple of `alignment`. -/
def align (alignment : Nat) : Write Unit :=
  fun d => .ok ((), { d with out := d.out.align alignment })

/-- Writes items one after the other, each at a multiple of `alignment`. Gives
the offsets of the items. -/
def place (alignment : Nat) (out : Output) (offsets : Array (κ × Nat)) :
    List (κ × List UInt8) → Output × Array (κ × Nat)
  | [] => (out, offsets)
  | (key, item) :: rest =>
    let out := out.align alignment
    let position := out.position
    place alignment (out.append item) (offsets.push (key, position)) rest

/-- Writes a section. Where several items have one key, the last one is
found. -/
def writeSection [BEq κ] [Hashable κ] (type : ItemType) (alignment : Nat) (items : List (κ × List UInt8)) :
    Write (Std.HashMap κ Nat) :=
  fun d =>
    let out := d.out.align alignment
    let noted := { d with out := {} }.note type items.length out.position
    let (out, offsets) := place alignment out #[] items
    .ok (Std.HashMap.ofList offsets.toList, { noted with out })

end Draft

/-- The offset that a table has for a key, or `noOffset`. -/
def offsetIn [BEq κ] [Hashable κ] (table : Std.HashMap κ Nat) (key : κ) : UInt32 :=
  match table[key]? with
  | some offset => UInt32.ofNat offset
  | none => noOffset

/-- An index in 16 bits, if it fits. -/
def narrow (what : String) (index : Nat) : Result UInt16 :=
  if index > 0xffff then .fail (.indexTooWide what index) else .ok (UInt16.ofNat index)

end Dalvik
