import Dalvik.Bounds
import Dalvik.MethodHandle
import Dalvik.Text.Decimal
import Dalvik.Text.Utf16

/-!
# Constant values

Constants stand in static initialisers, in annotations and among the
arguments of call sites. Floating-point numbers are kept as their bits, so
that equality tells them all apart. `compare` is a total order: first by the
tag of a value, then by its content. `compare_eq_iff` says that only equal
values compare as equal, which also decides equality.
-/

namespace Dalvik

/-- A constant. The named elements of an annotation may stand in any order. -/
inductive Value where
  | byte (v : Int8)
  | short (v : Int16)
  | char (v : UInt16)
  | int (v : Int32)
  | long (v : Int64)
  | float (bits : UInt32)
  | double (bits : UInt64)
  | proto (p : Prototype)
  | handle (h : MethodHandle)
  | string (s : String)
  | type (descriptor : String)
  | field (f : FieldSig)
  | method (m : MethodSig)
  | enum (f : FieldSig)
  | array (values : List Value)
  | nested (type : String) (elements : List (String × Value))
  | null
  | boolean (b : Bool)
  deriving Repr, Hashable, Inhabited

/-- The named elements of an annotation. -/
abbrev Elements := List (String × Value)

namespace Elements

/-- The elements by their names, in the order of UTF-16 units. Elements of
one name keep their order. -/
def sorted (elements : Elements) : Elements :=
  elements.mergeSort fun a b => (Utf16.compare a.1 b.1).isLE

end Elements

namespace Value

/-- The tag that stands for the kind of a value in a file. -/
def tag : Value → UInt8
  | byte _ => 0x00
  | short _ => 0x02
  | char _ => 0x03
  | int _ => 0x04
  | long _ => 0x06
  | float _ => 0x10
  | double _ => 0x11
  | proto _ => 0x15
  | handle _ => 0x16
  | string _ => 0x17
  | type _ => 0x18
  | field _ => 0x19
  | method _ => 0x1a
  | enum _ => 0x1b
  | array _ => 0x1c
  | nested _ _ => 0x1d
  | null => 0x1e
  | boolean _ => 0x1f

/-- The value of a field that has no initialiser. -/
def defaultFor (descriptor : String) : Value :=
  match descriptor with
  | "Z" => boolean false
  | "B" => byte 0
  | "S" => short 0
  | "C" => char 0
  | "I" => int 0
  | "J" => long 0
  | "F" => float 0
  | "D" => double 0
  | _ => null

/-- Whether all bits of a value are zero. Negative zero is no default. -/
def isDefault : Value → Bool
  | byte v => v == 0
  | short v => v == 0
  | char v => v == 0
  | int v => v == 0
  | long v => v == 0
  | float bits => bits == 0
  | double bits => bits == 0
  | boolean b => !b
  | null => true
  | _ => false

/-- The type and the elements of an annotation. -/
def asNested? : Value → Option (String × Elements)
  | nested t elements => some (t, elements)
  | _ => none

mutual

/-- A value with its parts spelled out. -/
def spelled : Value → String
  | byte v => Text.tagged "Byte" [toString v.toInt]
  | short v => Text.tagged "Short" [toString v.toInt]
  | char v => Text.tagged "Char" [toString v.toNat]
  | int v => Text.tagged "Int" [toString v.toInt]
  | long v => Text.tagged "Long" [toString v.toInt]
  | float bits => Text.tagged "Float" [Text.FloatFormat.single.text bits.toNat]
  | double bits => Text.tagged "Double" [Text.FloatFormat.double.text bits.toNat]
  | proto p => Text.tagged "MethodType" [p.spelled]
  | handle h => Text.tagged "MethodHandle" [h.spelled]
  | string s => Text.tagged "String" [Text.quoted s]
  | type descriptor => Text.tagged "Type" [Text.quoted descriptor]
  | field f => Text.tagged "Field" [f.spelled]
  | method m => Text.tagged "Method" [m.spelled]
  | enum f => Text.tagged "Enum" [f.spelled]
  | array values => Text.tagged "Array" [Text.bracketed (spelledValues values)]
  | nested t elements =>
    Text.tagged "Annotation" [Text.record "EncodedAnnotation"
      [("annotation_type", Text.quoted t), ("elements", Text.bracketed (spelledElements elements))]]
  | null => "Null"
  | boolean b => Text.tagged "Boolean" [if b then "true" else "false"]
termination_by structural v => v

/-- The values of a list with their parts spelled out. -/
def spelledValues : List Value → List String
  | [] => []
  | v :: vs => v.spelled :: spelledValues vs
termination_by structural vs => vs

/-- The elements of an annotation with their parts spelled out. -/
def spelledElements : List (String × Value) → List String
  | [] => []
  | (n, v) :: vs =>
    Text.record "AnnotationElement" [("name", Text.quoted n), ("value", v.spelled)] :: spelledElements vs
termination_by structural vs => vs

end

/-! ## Order -/

/-- A number whose order is that of floating-point numbers of `width` bits:
negative ones come first and in reverse. -/
def floatKey (width bits : Nat) : Int :=
  if bits < bitBound (width - 1) then bits else -(bits - bitBound (width - 1) : Nat) - 1

mutual

/-- Compares the contents of two values of one kind. -/
def compareContent : Value → Value → Ordering
  | byte a, byte b => Ord.compare a.toInt b.toInt
  | short a, short b => Ord.compare a.toInt b.toInt
  | char a, char b => Ord.compare a.toNat b.toNat
  | int a, int b => Ord.compare a.toInt b.toInt
  | long a, long b => Ord.compare a.toInt b.toInt
  | float a, float b => Ord.compare (floatKey 32 a.toNat) (floatKey 32 b.toNat)
  | double a, double b => Ord.compare (floatKey 64 a.toNat) (floatKey 64 b.toNat)
  | proto a, proto b => Ord.compare a b
  | handle a, handle b => Ord.compare a b
  | string a, string b => Ord.compare a b
  | type a, type b => Ord.compare a b
  | field a, field b => Ord.compare a b
  | method a, method b => Ord.compare a b
  | enum a, enum b => Ord.compare a b
  | array a, array b => compareValues a b
  | nested t a, nested u b => (Ord.compare t u).then (compareElements a b)
  | boolean a, boolean b => Ord.compare a.toNat b.toNat
  | _, _ => .eq
termination_by structural a => a

/-- Compares lists of values from left to right; a list comes before its
extensions. -/
def compareValues : List Value → List Value → Ordering
  | [], [] => .eq
  | [], _ :: _ => .lt
  | _ :: _, [] => .gt
  | v :: vs, w :: ws =>
    ((Ord.compare v.tag.toNat w.tag.toNat).then (compareContent v w)).then (compareValues vs ws)
termination_by structural a => a

/-- Compares lists of elements, each by its name and then by its value. -/
def compareElements : List (String × Value) → List (String × Value) → Ordering
  | [], [] => .eq
  | [], _ :: _ => .lt
  | _ :: _, [] => .gt
  | (n, v) :: vs, (m, w) :: ws =>
    (((Ord.compare n m).then (Ord.compare v.tag.toNat w.tag.toNat)).then (compareContent v w)).then
      (compareElements vs ws)
termination_by structural a => a

end

/-- The order of values: by tag, then by content. -/
protected def compare (a b : Value) : Ordering :=
  (Ord.compare a.tag.toNat b.tag.toNat).then (compareContent a b)

instance : Ord Value where
  compare := Value.compare

theorem floatKey_inj {width a b : Nat} (h : floatKey width a = floatKey width b) : a = b := by
  unfold floatKey at h
  split at h <;> split at h <;> omega

mutual

theorem eq_of_compareContent (a b : Value) (htag : a.tag = b.tag) (h : compareContent a b = .eq) :
    a = b := by
  cases a <;> cases b <;> simp only [tag] at htag <;> first | exact absurd htag (by decide) | skip
  case null.null => rfl
  all_goals rw [compareContent] at h
  case byte.byte => exact congrArg byte (Int8.toInt_inj.1 (Std.compare_eq_iff_eq.1 h))
  case short.short => exact congrArg short (Int16.toInt_inj.1 (Std.compare_eq_iff_eq.1 h))
  case char.char => exact congrArg char (UInt16.toNat_inj.1 (Std.compare_eq_iff_eq.1 h))
  case int.int => exact congrArg int (Int32.toInt_inj.1 (Std.compare_eq_iff_eq.1 h))
  case long.long => exact congrArg long (Int64.toInt_inj.1 (Std.compare_eq_iff_eq.1 h))
  case float.float =>
    exact congrArg float (UInt32.toNat_inj.1 (floatKey_inj (Std.compare_eq_iff_eq.1 h)))
  case double.double =>
    exact congrArg double (UInt64.toNat_inj.1 (floatKey_inj (Std.compare_eq_iff_eq.1 h)))
  case proto.proto => exact congrArg proto (Std.compare_eq_iff_eq.1 h)
  case handle.handle => exact congrArg handle (Std.compare_eq_iff_eq.1 h)
  case string.string => exact congrArg string (Std.compare_eq_iff_eq.1 h)
  case type.type => exact congrArg type (Std.compare_eq_iff_eq.1 h)
  case field.field => exact congrArg field (Std.compare_eq_iff_eq.1 h)
  case method.method => exact congrArg method (Std.compare_eq_iff_eq.1 h)
  case enum.enum => exact congrArg enum (Std.compare_eq_iff_eq.1 h)
  case array.array vs ws => exact congrArg array (eq_of_compareValues vs ws h)
  case nested.nested t vs u ws =>
    rw [Ordering.then_eq_eq, Std.compare_eq_iff_eq] at h
    rw [h.1, eq_of_compareElements vs ws h.2]
  case boolean.boolean a b => cases a <;> cases b <;> first | rfl | exact absurd h (by decide)

theorem eq_of_compareValues (a b : List Value) (h : compareValues a b = .eq) : a = b := by
  match a, b with
  | [], [] => rfl
  | [], _ :: _ | _ :: _, [] => simp [compareValues] at h
  | v :: vs, w :: ws =>
    rw [compareValues, Ordering.then_eq_eq, Ordering.then_eq_eq, Std.compare_eq_iff_eq] at h
    rw [eq_of_compareContent v w (UInt8.toNat_inj.1 h.1.1) h.1.2, eq_of_compareValues vs ws h.2]

theorem eq_of_compareElements (a b : List (String × Value)) (h : compareElements a b = .eq) : a = b := by
  match a, b with
  | [], [] => rfl
  | [], _ :: _ | _ :: _, [] => simp [compareElements] at h
  | (n, v) :: vs, (m, w) :: ws =>
    rw [compareElements, Ordering.then_eq_eq, Ordering.then_eq_eq, Ordering.then_eq_eq,
      Std.compare_eq_iff_eq, Std.compare_eq_iff_eq] at h
    rw [h.1.1.1, eq_of_compareContent v w (UInt8.toNat_inj.1 h.1.1.2) h.1.2, eq_of_compareElements vs ws h.2]

end

mutual

theorem compareContent_self (a : Value) : compareContent a a = .eq := by
  cases a
  case null => rfl
  all_goals rw [compareContent]
  case array vs => exact compareValues_self vs
  case nested t vs => simp [compareElements_self vs]
  all_goals simp

theorem compareValues_self (a : List Value) : compareValues a a = .eq := by
  match a with
  | [] => rfl
  | v :: vs => simp [compareValues, compareContent_self v, compareValues_self vs]

theorem compareElements_self (a : List (String × Value)) : compareElements a a = .eq := by
  match a with
  | [] => rfl
  | (n, v) :: vs => simp [compareElements, compareContent_self v, compareElements_self vs]

end

/-- Only equal values compare as equal. -/
theorem compare_eq_iff {a b : Value} : Value.compare a b = .eq ↔ a = b := by
  constructor
  · intro h
    rw [Value.compare, Ordering.then_eq_eq, Std.compare_eq_iff_eq] at h
    exact eq_of_compareContent a b (UInt8.toNat_inj.1 h.1) h.2
  · rintro rfl
    simp [Value.compare, compareContent_self]

instance : Std.LawfulEqOrd Value where
  compare_self := compare_eq_iff.2 rfl
  eq_of_compare := compare_eq_iff.1

instance : DecidableEq Value :=
  fun _ _ => decidable_of_iff _ compare_eq_iff

end Value

end Dalvik
