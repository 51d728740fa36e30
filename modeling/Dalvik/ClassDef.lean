import Dalvik.AccessFlags
import Dalvik.AnnotationItem
import Dalvik.Code
import Dalvik.HiddenApi
import Dalvik.Marker
import Dalvik.SortKey

/-!
# Classes and files

What a file says, with every index resolved: its classes with their members,
and the markers of the tools that made it.
-/

namespace Dalvik

/-- A parameter of a method. Its name is part of the debug information. -/
structure Parameter where
  type : String
  name : Option String := none
  annotations : List AnnotationItem := []
  deriving DecidableEq, Repr

/-- A field of a class. -/
structure FieldDef where
  definingClass : String
  name : String
  type : String
  flags : AccessFlags
  /-- The value that the field starts with, if it is given. -/
  value : Option Value := none
  annotations : List AnnotationItem := []
  hidden : Option HiddenApi := none
  deriving DecidableEq, Repr

/-- A method of a class. Abstract and native methods have no code. -/
structure MethodDef where
  definingClass : String
  name : String
  parameters : List Parameter
  returnType : String
  flags : AccessFlags
  annotations : List AnnotationItem := []
  hidden : Option HiddenApi := none
  code : Option Code := none
  deriving DecidableEq, Repr

/-- A class. Only the root of all classes has no superclass. -/
structure ClassDef where
  type : String
  flags : AccessFlags
  superclass : Option String
  interfaces : List String
  sourceFile : Option String
  annotations : List AnnotationItem
  staticFields : List FieldDef
  instanceFields : List FieldDef
  directMethods : List MethodDef
  virtualMethods : List MethodDef
  deriving DecidableEq, Repr

/-- The content of a file. -/
structure DexFile where
  opcodes : Opcodes
  classes : List ClassDef
  markers : List Marker := []
  deriving DecidableEq, Repr

namespace FieldDef

/-- The signature of a field. -/
def sig (f : FieldDef) : FieldSig :=
  ⟨f.definingClass, f.name, f.type⟩

/-- Fields of one class are in the order of their names, then of their
types. -/
def sortKey (f : FieldDef) : SortKey :=
  SortKey.ofStrings [f.name, f.type]

/-- The value that the field starts with, given or not. -/
def initialValue (f : FieldDef) : Value :=
  f.value.getD (Value.defaultFor f.type)

/-- The same field with its annotations arranged. -/
def arranged (f : FieldDef) : FieldDef :=
  { f with annotations := f.annotations.map AnnotationItem.arranged }

end FieldDef

namespace MethodDef

/-- The types of the parameters. -/
def parameterTypes (m : MethodDef) : List String :=
  m.parameters.map (·.type)

/-- The signature of a method. -/
def sig (m : MethodDef) : MethodSig :=
  ⟨m.definingClass, m.name, m.parameterTypes, m.returnType⟩

/-- Methods of one class are in the order of their names, then of their return
types and of their parameters. -/
def sortKey (m : MethodDef) : SortKey :=
  SortKey.ofStrings (m.name :: m.returnType :: m.parameterTypes)

/-- The same method with its annotations arranged. -/
def arranged (m : MethodDef) : MethodDef :=
  { m with annotations := m.annotations.map AnnotationItem.arranged }

end MethodDef

namespace ClassDef

/-- A class whose members are told apart by their flags. -/
def make (type : String) (flags : AccessFlags) (superclass : Option String) (interfaces : List String)
    (sourceFile : Option String) (annotations : List AnnotationItem) (fields : List FieldDef)
    (methods : List MethodDef) : ClassDef :=
  { type, flags, superclass, interfaces, sourceFile, annotations
    staticFields := fields.filter (·.flags.isStatic)
    instanceFields := fields.filter (!·.flags.isStatic)
    directMethods := methods.filter (·.flags.isDirect)
    virtualMethods := methods.filter (!·.flags.isDirect) }

/-- Static fields, then instance fields. -/
def fields (c : ClassDef) : List FieldDef :=
  c.staticFields ++ c.instanceFields

/-- Direct methods, then virtual methods. -/
def methods (c : ClassDef) : List MethodDef :=
  c.directMethods ++ c.virtualMethods

/-- The same class with the elements of its annotations and of those of its
members in order. -/
def arranged (c : ClassDef) : ClassDef :=
  { c with
    annotations := c.annotations.map AnnotationItem.arranged
    staticFields := c.staticFields.map FieldDef.arranged
    instanceFields := c.instanceFields.map FieldDef.arranged
    directMethods := c.directMethods.map MethodDef.arranged
    virtualMethods := c.virtualMethods.map MethodDef.arranged }

/-- Sorts members by their sort keys. Members with equal keys keep their
order. -/
def sortedBy (key : α → SortKey) (members : List α) : List α :=
  ((members.map fun m => (key m, m)).mergeSort fun a b => (SortKey.compare a.1 b.1).isLE).map (·.2)

/-- The same class with its members in the order in which a file lists them. -/
def ordered (c : ClassDef) : ClassDef :=
  { c with
    staticFields := sortedBy FieldDef.sortKey c.staticFields
    instanceFields := sortedBy FieldDef.sortKey c.instanceFields
    directMethods := sortedBy MethodDef.sortKey c.directMethods
    virtualMethods := sortedBy MethodDef.sortKey c.virtualMethods }

/-- The initial values of the static fields, up to the last that is not the
default. -/
def staticValues (c : ClassDef) : List Value :=
  ((c.staticFields.map FieldDef.initialValue).reverse.dropWhile Value.isDefault).reverse

/-- Whether a class has any fields or methods. -/
def hasMembers (c : ClassDef) : Bool :=
  !c.fields.isEmpty || !c.methods.isEmpty

/-- The hidden API restrictions of all members: of the fields, then of the
methods. -/
def restrictions (c : ClassDef) : List (Option HiddenApi) :=
  c.fields.map (·.hidden) ++ c.methods.map (·.hidden)

/-- Whether any member carries hidden API restrictions. -/
def isRestricted (c : ClassDef) : Bool :=
  c.restrictions.any Option.isSome

/-- The superclass and the interfaces. -/
def supertypes (c : ClassDef) : List String :=
  c.superclass.toList ++ c.interfaces

end ClassDef

namespace DexFile

/-- The same file with all its classes arranged. -/
def arranged (d : DexFile) : DexFile :=
  { d with classes := d.classes.map ClassDef.arranged }

end DexFile

end Dalvik
