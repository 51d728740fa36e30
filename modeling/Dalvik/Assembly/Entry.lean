import Dalvik.ClassDef

/-!
# Entries

A file keeps whatever its classes refer to in tables, once for each. The
functions of this module list the entries that something needs, in the order in
which they are to be made: an entry comes after those that it is made of.
-/

namespace Dalvik

/-- What has a place in a table of a file. -/
inductive Entry where
  | string (s : String)
  | type (descriptor : String)
  | typeList (types : List String)
  | proto (p : Prototype)
  | field (f : FieldSig)
  | method (m : MethodSig)
  | handle (h : MethodHandle)
  | array (values : List Value)
  | callSite (c : CallSite)
  | annotationItem (a : AnnotationItem)
  | annotationSet (annotations : List AnnotationItem)
  deriving DecidableEq, Repr

namespace Entry

/-- A type with its descriptor. -/
def ofType (descriptor : String) : List Entry :=
  [string descriptor, type descriptor]

/-- A list of types. The empty list needs no entry. -/
def ofTypeList (types : List String) : List Entry :=
  if types.isEmpty then [] else types.flatMap ofType ++ [typeList types]

/-- A prototype with its short form and its types. -/
def ofProto (p : Prototype) : List Entry :=
  string p.shorty :: ofType p.returnType ++ ofTypeList p.parameters ++ [proto p]

/-- A field with its class, its name and its type. -/
def ofField (f : FieldSig) : List Entry :=
  ofType f.definingClass ++ string f.name :: ofType f.type ++ [field f]

/-- A method with its class, its name and its prototype. -/
def ofMethod (m : MethodSig) : List Entry :=
  ofType m.definingClass ++ string m.name :: ofProto m.proto ++ [method m]

/-- The member of a method handle. -/
def ofMember : HandleMember → List Entry
  | .field f => ofField f
  | .method m => ofMethod m

/-- A method handle with its member. -/
def ofHandle (h : MethodHandle) : List Entry :=
  ofMember h.member ++ [handle h]

mutual

/-- Whatever a constant refers to. The constant itself has no entry of its
own. -/
def ofValue : Value → List Entry
  | .proto p => ofProto p
  | .handle h => ofHandle h
  | .string s => [string s]
  | .type d => ofType d
  | .field f => ofField f
  | .enum f => ofField f
  | .method m => ofMethod m
  | .array values => ofValues values
  | .nested t elements => ofType t ++ ofElements elements
  | _ => []
termination_by structural v => v

/-- Whatever some constants refer to. -/
def ofValues : List Value → List Entry
  | [] => []
  | v :: vs => ofValue v ++ ofValues vs
termination_by structural vs => vs

/-- The names of elements and whatever their values refer to. -/
def ofElements : List (String × Value) → List Entry
  | [] => []
  | (name, v) :: vs => string name :: ofValue v ++ ofElements vs
termination_by structural vs => vs

end

/-- A list of constants. -/
def ofArray (values : List Value) : List Entry :=
  ofValues values ++ [array values]

/-- A call site with the list of its values. -/
def ofCallSite (c : CallSite) : List Entry :=
  ofArray c.values ++ [callSite c]

/-- An annotation, with its elements in order. -/
def ofAnnotationItem (a : AnnotationItem) : List Entry :=
  let a := a.arranged
  ofType a.type ++ ofElements a.elements ++ [annotationItem a]

/-- A set of annotations. The empty set needs no entry. -/
def ofAnnotationSet (annotations : List AnnotationItem) : List Entry :=
  if annotations.isEmpty then []
  else annotations.flatMap ofAnnotationItem ++ [annotationSet (AnnotationItem.setOf annotations)]

/-- Anything that an instruction can refer to. -/
def ofReference : Reference → List Entry
  | .string s => [string s]
  | .type d => ofType d
  | .field f => ofField f
  | .method m => ofMethod m
  | .proto p => ofProto p
  | .handle h => ofHandle h
  | .callSite c => ofCallSite c

/-- A string that may be missing. -/
def ofString? (s : Option String) : List Entry :=
  s.toList.map string

/-- A type that may be missing. -/
def ofType? (descriptor : Option String) : List Entry :=
  descriptor.toList.flatMap ofType

/-- The strings and types of debug information. -/
def ofDebugEvent : DebugEvent → List Entry
  | .startLocal _ n t s => ofString? n ++ ofString? s ++ ofType? t
  | .setFile n => ofString? n
  | _ => []

/-- The body of a method. -/
def ofCode (c : Code) : List Entry :=
  c.instructions.flatMap (fun i => i.references.flatMap ofReference) ++
    c.tries.flatMap (fun t => t.handlers.flatMap fun h => ofType? h.type) ++
    c.debug.flatMap fun d => ofDebugEvent d.event

/-- A field of a class, without its initial value. -/
def ofFieldDef (f : FieldDef) : List Entry :=
  ofField f.sig ++ ofAnnotationSet f.annotations

/-- A method of a class. -/
def ofMethodDef (m : MethodDef) : List Entry :=
  m.parameters.flatMap (fun p => ofAnnotationSet p.annotations) ++
    m.parameters.flatMap (fun p => ofString? p.name) ++ m.code.toList.flatMap ofCode ++
    ofMethod m.sig ++ ofAnnotationSet m.annotations

/-- The initial values of static fields, where there are any. -/
def ofStaticValues (values : List Value) : List Entry :=
  if values.isEmpty then [] else ofArray values

/-- A class with all its members. -/
def ofClass (c : ClassDef) : List Entry :=
  ofType c.type ++ ofType? c.superclass ++ ofTypeList c.interfaces ++ ofString? c.sourceFile ++
    ofAnnotationSet c.annotations ++ ofStaticValues c.staticValues ++
    c.fields.flatMap ofFieldDef ++ c.methods.flatMap ofMethodDef

end Entry

end Dalvik
