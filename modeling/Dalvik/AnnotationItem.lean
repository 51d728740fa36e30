import Dalvik.Value

/-!
# Annotations
-/

namespace Dalvik

/-- Who sees an annotation. -/
inductive Visibility where
  | build
  | runtime
  | system
  deriving DecidableEq, Repr, Hashable, Inhabited

namespace Visibility

/-- The number that stands for a visibility. -/
def code : Visibility → Nat
  | build => 0
  | runtime => 1
  | system => 2

/-- The visibility with a given number. -/
def ofCode (code : Nat) : Result Visibility :=
  match code with
  | 0 => .ok build
  | 1 => .ok runtime
  | 2 => .ok system
  | _ => .fail (.visibilityUnknown code)

theorem ofCode_code (v : Visibility) : ofCode v.code = .ok v := by
  cases v <;> rfl

/-- The name of a visibility. -/
def name : Visibility → String
  | build => "Build"
  | runtime => "Runtime"
  | system => "System"

end Visibility

/-- An annotation of a class, a member or a parameter. -/
structure AnnotationItem where
  visibility : Visibility
  type : String
  elements : Elements
  deriving DecidableEq, Repr, Hashable

namespace AnnotationItem

/-- An annotation with its elements in the order of their names. -/
def make (visibility : Visibility) (type : String) (elements : Elements) : AnnotationItem :=
  ⟨visibility, type, elements.sorted⟩

/-- The same annotation with its elements in order. -/
def arranged (a : AnnotationItem) : AnnotationItem :=
  make a.visibility a.type a.elements

/-- The order of annotations: by visibility, type and elements. -/
protected def compare (a b : AnnotationItem) : Ordering :=
  (Ord.compare a.visibility.code b.visibility.code).then
    ((Ord.compare a.type b.type).then (Value.compareElements a.elements b.elements))

instance : Ord AnnotationItem where
  compare := AnnotationItem.compare

/-- The different annotations of a list, in order and with their elements in
order. -/
def setOf (annotations : List AnnotationItem) : List AnnotationItem :=
  ((annotations.map arranged).mergeSort fun a b => (Ord.compare a b).isLE).eraseReps

end AnnotationItem

end Dalvik
