import Dalvik.ClassDef
import Dalvik.Items

/-!
# Views

A view tells of a class, of a member or of a whole file part by part. When the
parts are read from an image, each of them may fail on its own. A view is
copied part by part in a fixed order, and the first failure is that of the copy.
The copy of the view of a class is the class with its annotations arranged.
-/

namespace Dalvik

/-- What is said about an annotation. -/
structure AnnotationView where
  visibility : Visibility
  type : Result String
  elements : Result Elements

/-- What is said about the body of a method. -/
structure CodeView where
  registers : UInt16
  instructions : List (Result (Instruction Reference))
  tries : Result (List TryBlock)
  debug : List (Result DebugItem)

/-- What is said about a field. -/
structure FieldView where
  definingClass : Result String
  name : Result String
  type : Result String
  flags : AccessFlags
  value : Result (Option Value)
  annotations : Items AnnotationView
  hidden : Result (Option HiddenApi)

/-- What is said about a method. -/
structure MethodView where
  definingClass : Result String
  name : Result String
  parameterTypes : Result (List String)
  parameters : Result (List Parameter)
  returnType : Result String
  flags : AccessFlags
  annotations : Items AnnotationView
  hidden : Result (Option HiddenApi)
  code : Result (Option CodeView)

/-- What is said about a class. -/
structure ClassView where
  type : Result String
  flags : AccessFlags
  superclass : Result (Option String)
  interfaces : Result (List String)
  sourceFile : Result (Option String)
  annotations : Items AnnotationView
  staticFields : List (Result FieldView)
  instanceFields : List (Result FieldView)
  directMethods : List (Result MethodView)
  virtualMethods : List (Result MethodView)

/-- What is said about a file. -/
structure FileView where
  opcodes : Opcodes
  classes : Items ClassView
  markers : Result (List Marker)

/-! ## Copies -/

namespace AnnotationView

/-- The annotation with its elements in the order of their names. -/
def toAnnotationItem (a : AnnotationView) : Result AnnotationItem := do
  let type ← a.type
  return AnnotationItem.make a.visibility type (← a.elements)

/-- All annotations of a collection, or the first failure. -/
def collect (annotations : Items AnnotationView) : Result (List AnnotationItem) :=
  (annotations.andThen toAnnotationItem).collect

end AnnotationView

namespace CodeView

/-- The whole body. -/
def toCode (c : CodeView) : Result Code := do
  let instructions ← Result.collect c.instructions
  let tries ← c.tries
  return { registers := c.registers, instructions, tries, debug := ← Result.collect c.debug }

end CodeView

namespace FieldView

/-- The signature of a field. -/
def sig (f : FieldView) : Result FieldSig := do
  let definingClass ← f.definingClass
  let name ← f.name
  return { definingClass, name, type := ← f.type }

/-- The whole field. -/
def toField (f : FieldView) : Result FieldDef := do
  let definingClass ← f.definingClass
  let name ← f.name
  let type ← f.type
  let value ← f.value
  let annotations ← AnnotationView.collect f.annotations
  return { definingClass, name, type, flags := f.flags, value, annotations, hidden := ← f.hidden }

/-- All fields of a list, or the first failure. -/
def collect (fields : List (Result FieldView)) : Result (List FieldDef) :=
  Result.collect (fields.map fun f => f >>= toField)

end FieldView

namespace MethodView

/-- The signature of a method. -/
def sig (m : MethodView) : Result MethodSig := do
  let definingClass ← m.definingClass
  let name ← m.name
  let parameters ← m.parameterTypes
  return { definingClass, name, parameters, returnType := ← m.returnType }

/-- The body of a method, if it has one. -/
def toCode? (m : MethodView) : Result (Option Code) := do
  match ← m.code with
  | some code => return some (← code.toCode)
  | none => return none

/-- The whole method, whose name is known. -/
def toMethodNamed (m : MethodView) (name : String) : Result MethodDef := do
  let code ← m.toCode?
  let definingClass ← m.definingClass
  let parameters ← m.parameters
  let returnType ← m.returnType
  let annotations ← AnnotationView.collect m.annotations
  let hidden ← m.hidden
  return { definingClass, name, parameters, returnType, flags := m.flags, annotations, hidden, code }

/-- The whole method. -/
def toMethod (m : MethodView) : Result MethodDef := do
  let name ← m.name
  (m.toMethodNamed name).within (.methodNamed name)

/-- All methods of a list, or the first failure. -/
def collect (methods : List (Result MethodView)) : Result (List MethodDef) :=
  Result.collect (methods.map fun m => m >>= toMethod)

end MethodView

namespace ClassView

/-- Static fields, then instance fields. -/
def fields (c : ClassView) : List (Result FieldView) :=
  c.staticFields ++ c.instanceFields

/-- Direct methods, then virtual methods. -/
def methods (c : ClassView) : List (Result MethodView) :=
  c.directMethods ++ c.virtualMethods

/-- The whole class, whose type is known. -/
def toClassOf (c : ClassView) (type : String) : Result ClassDef := do
  let superclass ← c.superclass
  let interfaces ← c.interfaces
  let sourceFile ← c.sourceFile
  let annotations ← AnnotationView.collect c.annotations
  let staticFields ← FieldView.collect c.staticFields
  let instanceFields ← FieldView.collect c.instanceFields
  let directMethods ← MethodView.collect c.directMethods
  let virtualMethods ← MethodView.collect c.virtualMethods
  return {
    type, flags := c.flags, superclass, interfaces, sourceFile, annotations
    staticFields, instanceFields, directMethods, virtualMethods }

/-- The whole class. -/
def toClass (c : ClassView) : Result ClassDef := do
  let type ← c.type
  (c.toClassOf type).within (.classNamed type)

end ClassView

namespace FileView

/-- The whole content of a file. -/
def toDexFile (file : FileView) : Result DexFile := do
  let classes ← (file.classes.andThen ClassView.toClass).collect
  return { opcodes := file.opcodes, classes, markers := ← file.markers }

end FileView

/-! ## Views of what is at hand -/

/-- The view of an annotation. -/
def AnnotationItem.view (a : AnnotationItem) : AnnotationView :=
  ⟨a.visibility, .ok a.type, .ok a.elements⟩

/-- The view of some annotations. -/
def AnnotationItem.viewAll (annotations : List AnnotationItem) : Items AnnotationView :=
  Items.ofList (annotations.map view)

/-- The view of the body of a method. -/
def Code.view (c : Code) : CodeView :=
  ⟨c.registers, c.instructions.map .ok, .ok c.tries, c.debug.map .ok⟩

/-- The view of a field. -/
def FieldDef.view (f : FieldDef) : FieldView where
  definingClass := .ok f.definingClass
  name := .ok f.name
  type := .ok f.type
  flags := f.flags
  value := .ok f.value
  annotations := AnnotationItem.viewAll f.annotations
  hidden := .ok f.hidden

/-- The view of a method. -/
def MethodDef.view (m : MethodDef) : MethodView where
  definingClass := .ok m.definingClass
  name := .ok m.name
  parameterTypes := .ok m.parameterTypes
  parameters := .ok m.parameters
  returnType := .ok m.returnType
  flags := m.flags
  annotations := AnnotationItem.viewAll m.annotations
  hidden := .ok m.hidden
  code := .ok (m.code.map Code.view)

/-- The view of a class. -/
def ClassDef.view (c : ClassDef) : ClassView where
  type := .ok c.type
  flags := c.flags
  superclass := .ok c.superclass
  interfaces := .ok c.interfaces
  sourceFile := .ok c.sourceFile
  annotations := AnnotationItem.viewAll c.annotations
  staticFields := c.staticFields.map fun f => .ok f.view
  instanceFields := c.instanceFields.map fun f => .ok f.view
  directMethods := c.directMethods.map fun m => .ok m.view
  virtualMethods := c.virtualMethods.map fun m => .ok m.view

/-- The view of a file. -/
def DexFile.view (d : DexFile) : FileView where
  opcodes := d.opcodes
  classes := Items.ofList (d.classes.map ClassDef.view)
  markers := .ok d.markers

end Dalvik
