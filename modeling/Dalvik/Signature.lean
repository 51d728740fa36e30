import Dalvik.Descriptor
import Dalvik.Text.Quoted

/-!
# Signatures of fields and methods

Fields and methods are named by their class, their own name and their type.
The order of signatures compares their parts from left to right, as the parts
are listed here.
-/

namespace Dalvik

/-- The name of a field. -/
structure FieldSig where
  definingClass : String
  name : String
  type : String
  deriving DecidableEq, Repr, Hashable, Inhabited

/-- The parameters and the return type of a method. -/
structure Prototype where
  parameters : List String
  returnType : String
  deriving DecidableEq, Repr, Hashable, Inhabited

/-- The name of a method. -/
structure MethodSig where
  definingClass : String
  name : String
  parameters : List String
  returnType : String
  deriving DecidableEq, Repr, Hashable, Inhabited

namespace FieldSig

instance : Ord FieldSig where
  compare := compareLex (compareOn definingClass) (compareLex (compareOn name) (compareOn type))

instance : Std.TransOrd FieldSig :=
  inferInstanceAs (Std.TransCmp (compareLex (compareOn definingClass)
    (compareLex (compareOn name) (compareOn type))))

instance : Std.LawfulEqOrd FieldSig where
  eq_of_compare {a b} h := by
    have h : compareLex (compareOn definingClass) (compareLex (compareOn name) (compareOn type)) a b = .eq := h
    simp only [compareLex_eq_eq, compareOn, Std.compare_eq_iff_eq] at h
    cases a
    cases b
    simp_all

/-- The signature with other types. -/
def mapTypes (type : String → String) (f : FieldSig) : FieldSig :=
  ⟨type f.definingClass, f.name, type f.type⟩

/-- The usual text of a field's name. -/
def text (f : FieldSig) : String :=
  f.definingClass ++ "->" ++ f.name ++ ":" ++ f.type

/-- A field's name with its parts spelled out. -/
def spelled (f : FieldSig) : String :=
  Text.record "FieldRef" [("defining_class", Text.quoted f.definingClass), ("name", Text.quoted f.name),
    ("field_type", Text.quoted f.type)]

end FieldSig

namespace Prototype

instance : Ord Prototype where
  compare := compareLex (compareOn parameters) (compareOn returnType)

instance : Std.TransOrd Prototype :=
  inferInstanceAs (Std.TransCmp (compareLex (compareOn parameters) (compareOn returnType)))

instance : Std.LawfulEqOrd Prototype where
  eq_of_compare {a b} h := by
    have h : compareLex (compareOn parameters) (compareOn returnType) a b = .eq := h
    simp only [compareLex_eq_eq, compareOn, Std.compare_eq_iff_eq] at h
    cases a
    cases b
    simp_all

/-- The prototype with other types. -/
def mapTypes (type : String → String) (p : Prototype) : Prototype :=
  ⟨p.parameters.map type, type p.returnType⟩

/-- The method descriptor. -/
def descriptor (p : Prototype) : String :=
  "(" ++ String.join p.parameters ++ ")" ++ p.returnType

/-- Reads a method descriptor. -/
def ofDescriptor (text : String) : Result Prototype :=
  match text.toList with
  | '(' :: rest =>
    match rest.dropWhile (· ≠ ')') with
    | ')' :: returnType =>
      match Descriptor.parameters? (rest.takeWhile (· ≠ ')')) with
      | some parameters =>
        if returnType.isEmpty then .fail (.descriptorWithoutReturn text)
        else .ok ⟨parameters, String.ofList returnType⟩
      | none => .fail (.descriptorMalformed text)
    | _ => .fail (.descriptorMalformed text)
  | _ => .fail (.descriptorMalformed text)

/-- The short form: one letter for the return type and one for each
parameter. -/
def shorty (p : Prototype) : String :=
  String.ofList ((p.returnType :: p.parameters).map Descriptor.shortyLetter)

/-- The number of registers that the parameters take. -/
def registerCount (p : Prototype) : Nat :=
  p.parameters.foldr (fun d count => (if Descriptor.isWide d then 2 else 1) + count) 0

/-- A prototype with its parts spelled out. -/
def spelled (p : Prototype) : String :=
  Text.record "MethodProtoRef" [("parameter_types", Text.quotedList p.parameters),
    ("return_type", Text.quoted p.returnType)]

end Prototype

namespace MethodSig

instance : Ord MethodSig where
  compare := compareLex (compareOn definingClass) (compareLex (compareOn name)
    (compareLex (compareOn parameters) (compareOn returnType)))

instance : Std.TransOrd MethodSig :=
  inferInstanceAs (Std.TransCmp (compareLex (compareOn definingClass) (compareLex (compareOn name)
    (compareLex (compareOn parameters) (compareOn returnType)))))

instance : Std.LawfulEqOrd MethodSig where
  eq_of_compare {a b} h := by
    have h : compareLex (compareOn definingClass) (compareLex (compareOn name)
    (compareLex (compareOn parameters) (compareOn returnType))) a b = .eq := h
    simp only [compareLex_eq_eq, compareOn, Std.compare_eq_iff_eq] at h
    cases a
    cases b
    simp_all

/-- The signature with other types. -/
def mapTypes (type : String → String) (m : MethodSig) : MethodSig :=
  ⟨type m.definingClass, m.name, m.parameters.map type, type m.returnType⟩

/-- The parameters and the return type. -/
def proto (m : MethodSig) : Prototype :=
  ⟨m.parameters, m.returnType⟩

/-- The usual text of a method's name. -/
def text (m : MethodSig) : String :=
  m.definingClass ++ "->" ++ m.name ++ m.proto.descriptor

/-- A method's name with its parts spelled out. -/
def spelled (m : MethodSig) : String :=
  Text.record "MethodRef" [("defining_class", Text.quoted m.definingClass), ("name", Text.quoted m.name),
    ("parameter_types", Text.quotedList m.parameters), ("return_type", Text.quoted m.returnType)]

end MethodSig

end Dalvik
