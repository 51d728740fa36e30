import Dalvik.Image.Basic
import Dalvik.View

/-!
# Annotations in an image

The annotations directory of a class says where the annotations of the class
and of its members are. Its tables are in the order of the indices of the
members and are searched by bisection.
-/

namespace Dalvik

/-- An annotation whose elements have not been read. -/
structure StoredAnnotationItem where
  image : Image
  visibility : Visibility
  typeIndex : UInt32
  elementsOffset : Nat

namespace StoredAnnotationItem

/-- The type of an annotation. -/
def type (a : StoredAnnotationItem) : Result String :=
  a.image.type a.typeIndex

/-- The elements of an annotation, in the order of the file. -/
def elements (a : StoredAnnotationItem) : Result Elements :=
  a.image.readAt (Value.decodeElements a.image.valueResolver) a.elementsOffset

/-- The view of an annotation. -/
def view (a : StoredAnnotationItem) : AnnotationView :=
  ⟨a.visibility, a.type, a.elements⟩

end StoredAnnotationItem

namespace Image

/-- The annotation at an offset. -/
def annotationAt (image : Image) (offset : Nat) : Result StoredAnnotationItem :=
  (image.readAt · offset) do
    let visibility ← Read.ofResult (Visibility.ofCode (← Read.ubyte).toNat)
    let typeIndex ← Read.smallUleb128
    return { image, visibility, typeIndex, elementsOffset := ← Read.tell }

/-- The set of annotations at an offset; there are none at the offset of
nothing. -/
def annotationSet (image : Image) (offset : Nat) : Items StoredAnnotationItem :=
  if offset = 0 then .none
  else
    match image.readAt Read.smallUint offset with
    | .error e => .failed e
    | .ok count =>
      ⟨count.toNat, fun i => do
        image.annotationAt (← image.readAt Read.smallUint (offset + 4 + 4 * i)).toNat⟩

/-- The offsets of the sets of annotations of parameters. -/
def annotationSetRefs (image : Image) (offset : Nat) : Result (List Nat) :=
  if offset = 0 then .ok []
  else
    (image.readAt · offset) do
      let count := (← Read.smallUint).toNat
      return (← Read.times Read.smallUint count).map UInt32.toNat

end Image

/-- The head of an annotations directory. The directory at the offset of
nothing is empty. -/
structure StoredDirectory where
  image : Image
  offset : Nat
  fieldCount : Nat := 0
  methodCount : Nat := 0
  parameterCount : Nat := 0

namespace StoredDirectory

/-- The bytes of a directory in front of its tables. -/
def headSize : Nat := 16

/-- The bytes of one entry of a table. -/
def entrySize : Nat := 8

/-- The directory at an offset. Its tables have to end inside the image. -/
def at? (image : Image) (offset : Nat) : Result StoredDirectory :=
  if offset = 0 then .ok { image, offset }
  else
    (image.readAt · offset) do
      Read.skip 4
      let fieldCount := (← Read.smallUint).toNat
      let methodCount := (← Read.smallUint).toNat
      let parameterCount := (← Read.smallUint).toNat
      let count := fieldCount + methodCount + parameterCount
      if count * entrySize > (← Read.remaining) then Read.fail (.directoryTooLarge offset count)
      return { image, offset, fieldCount, methodCount, parameterCount }

/-- The offset of the annotations of the class. -/
def classOffset (d : StoredDirectory) : Result Nat :=
  if d.offset = 0 then .ok 0 else (d.image.readAt Read.smallUint d.offset).map UInt32.toNat

/-- Where the table begins that follows a number of entries of other
tables. -/
def tableStart (d : StoredDirectory) (preceding : Nat) : Nat :=
  d.offset + headSize + preceding * entrySize

/-- Looks for the offset under an index among the entries `low` to `high - 1`
of the table at `start`. -/
def search (image : Image) (start : Nat) (index : UInt32) (low high : Nat) : Result Nat :=
  if low < high then do
    let middle := low + (high - low) / 2
    let entry := start + middle * entrySize
    let key ← image.readAt Read.uint entry
    if key = index then return (← image.readAt Read.smallUint (entry + 4)).toNat
    else if key < index then search image start index (middle + 1) high
    else search image start index low middle
  else return 0
termination_by high - low

/-- The offset of the annotations of a field. -/
def fieldOffset (d : StoredDirectory) (index : UInt32) : Result Nat :=
  search d.image (d.tableStart 0) index 0 d.fieldCount

/-- The offset of the annotations of a method. -/
def methodOffset (d : StoredDirectory) (index : UInt32) : Result Nat :=
  search d.image (d.tableStart d.fieldCount) index 0 d.methodCount

/-- The offset of the annotations of the parameters of a method. -/
def parameterOffset (d : StoredDirectory) (index : UInt32) : Result Nat :=
  search d.image (d.tableStart (d.fieldCount + d.methodCount)) index 0 d.parameterCount

end StoredDirectory

end Dalvik
