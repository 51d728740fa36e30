import Dalvik.Reference

/-!
# Renamings

A renaming gives types, fields and methods other names wherever they occur:
where they are defined, in code, in constants and in annotations. It is made of
three functions; unless it is told otherwise, it renames the types in the
signatures of fields and methods. Some kinds of parts may be left untouched.
-/

namespace Dalvik

/-- The kinds of parts that a renaming may leave untouched, with all that is in
them. -/
inductive Part where
  | file
  | classDef
  | field
  | method
  | code
  | instruction
  | tryBlock
  | handler
  | debugItem
  | annotationItem
  | element
  deriving DecidableEq, Repr

/-- What a renaming does to constants. -/
inductive ValueRule where
  /-- It renames what they refer to. -/
  | references
  /-- It only changes strings, also those in arrays. -/
  | strings (change : String → String)
  /-- It leaves them as they are. -/
  | unchanged

/-- Other names for types, fields and methods. -/
structure Renaming where
  type : String → String := id
  field : FieldSig → FieldSig := FieldSig.mapTypes type
  method : MethodSig → MethodSig := MethodSig.mapTypes type
  values : ValueRule := .references
  untouched : List Part := []

namespace Renaming

/-- What stands for a name in a table: the second half of the first pair that
begins with it, and the name itself if there is none. -/
def lookup [BEq α] (table : List (α × α)) (name : α) : α :=
  (table.lookup name).getD name

/-- Changes a part, unless its kind is left untouched. -/
def apply (r : Renaming) (part : Part) (change : α → α) (a : α) : α :=
  if part ∈ r.untouched then a else change a

/-- Renames the types of a prototype. -/
def proto (r : Renaming) (p : Prototype) : Prototype :=
  p.mapTypes r.type

/-- Renames the member of a method handle. -/
def member (r : Renaming) : HandleMember → HandleMember
  | .field f => .field (r.field f)
  | .method m => .method (r.method m)

@[simp] theorem isField_member (r : Renaming) (m : HandleMember) : (r.member m).isField = m.isField := by
  cases m <;> rfl

/-- Renames what a method handle refers to. -/
def handle (r : Renaming) (h : MethodHandle) : MethodHandle :=
  ⟨h.kind, r.member h.member, by rw [isField_member, h.kind_fits]⟩

/-! ## Constants -/

mutual

/-- Renames what a constant refers to. -/
def referencesIn (r : Renaming) : Value → Value
  | .type d => .type (r.type d)
  | .field f => .field (r.field f)
  | .enum f => .enum (r.field f)
  | .method m => .method (r.method m)
  | .proto p => .proto (r.proto p)
  | .handle h => .handle (r.handle h)
  | .array values => .array (r.referencesInAll values)
  | .nested t elements => .nested (r.type t) (r.referencesInElements elements)
  | v => v
termination_by structural v => v

/-- Renames what some constants refer to. -/
def referencesInAll (r : Renaming) : List Value → List Value
  | [] => []
  | v :: vs => r.referencesIn v :: r.referencesInAll vs
termination_by structural vs => vs

/-- Renames what the elements of a nested annotation refer to. -/
def referencesInElements (r : Renaming) : List (String × Value) → List (String × Value)
  | [] => []
  | (name, v) :: vs =>
    (name, if Part.element ∈ r.untouched then v else r.referencesIn v) :: r.referencesInElements vs
termination_by structural vs => vs

end

mutual

/-- Changes the strings among constants and in arrays of them. -/
def stringsIn (change : String → String) : Value → Value
  | .string s => .string (change s)
  | .array values => .array (stringsInAll change values)
  | v => v
termination_by structural v => v

/-- Changes the strings among some constants. -/
def stringsInAll (change : String → String) : List Value → List Value
  | [] => []
  | v :: vs => stringsIn change v :: stringsInAll change vs
termination_by structural vs => vs

end

/-- Changes a constant by the rule for constants. -/
def value (r : Renaming) (v : Value) : Value :=
  match r.values with
  | .references => r.referencesIn v
  | .strings change => stringsIn change v
  | .unchanged => v

/-- Changes the value of an element of an annotation. -/
def element (r : Renaming) : String × Value → String × Value :=
  r.apply .element fun (name, v) => (name, r.value v)

/-! ## References -/

/-- Renames what a call site refers to. -/
def callSite (r : Renaming) (c : CallSite) : CallSite :=
  ⟨r.handle c.handle, c.name, r.proto c.proto, c.arguments.map r.value⟩

/-- Renames what a reference names. -/
def reference (r : Renaming) : Reference → Reference
  | .string s => .string s
  | .type d => .type (r.type d)
  | .field f => .field (r.field f)
  | .method m => .method (r.method m)
  | .proto p => .proto (r.proto p)
  | .handle h => .handle (r.handle h)
  | .callSite c => .callSite (r.callSite c)

end Renaming

end Dalvik
