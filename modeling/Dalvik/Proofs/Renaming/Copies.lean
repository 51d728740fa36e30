import Dalvik.Proofs.Class.Copies
import Dalvik.Proofs.Instruction.References
import Dalvik.Renaming.View

/-!
# Copies of renamed files

`DexFile.renamed` gives all that is in a file its new names. A renaming that leaves nothing
untouched (`Renaming.Thorough`) shows a file so that this is its copy
(`Renaming.Thorough.toDexFile_fileView`).
-/

namespace Dalvik

/-! ## Files under other names -/

/-- The same annotation under other names, with its elements in order. -/
def AnnotationItem.renamed (r : Renaming) (a : AnnotationItem) : AnnotationItem :=
  make a.visibility (r.type a.type) (a.elements.map r.element)

/-- The same body under other names. -/
def Code.renamed (r : Renaming) (c : Code) : Code :=
  { c with
    instructions := c.instructions.map (Instruction.map r.reference)
    tries := c.tries.map r.tryBlock
    debug := c.debug.map r.debugItem }

/-- The same field under other names. -/
def FieldDef.renamed (r : Renaming) (f : FieldDef) : FieldDef :=
  { f with
    definingClass := (r.field f.sig).definingClass
    name := (r.field f.sig).name
    type := (r.field f.sig).type
    value := f.value.map r.value
    annotations := f.annotations.map (AnnotationItem.renamed r) }

/-- The same parameter under other names, whose new type is given. -/
def Parameter.renamed (r : Renaming) (p : Parameter) (type : String) : Parameter :=
  { p with type, annotations := p.annotations.map (AnnotationItem.renamed r) }

/-- The same method under other names. -/
def MethodDef.renamed (r : Renaming) (m : MethodDef) : MethodDef :=
  { m with
    definingClass := (r.method m.sig).definingClass
    name := (r.method m.sig).name
    parameters := (m.parameters.zip (r.method m.sig).parameters).map fun (p, type) => p.renamed r type
    returnType := (r.method m.sig).returnType
    annotations := m.annotations.map (AnnotationItem.renamed r)
    code := m.code.map (Code.renamed r) }

/-- The same class under other names. -/
def ClassDef.renamed (r : Renaming) (c : ClassDef) : ClassDef :=
  { c with
    type := r.type c.type
    superclass := c.superclass.map r.type
    interfaces := c.interfaces.map r.type
    annotations := c.annotations.map (AnnotationItem.renamed r)
    staticFields := c.staticFields.map (FieldDef.renamed r)
    instanceFields := c.instanceFields.map (FieldDef.renamed r)
    directMethods := c.directMethods.map (MethodDef.renamed r)
    virtualMethods := c.virtualMethods.map (MethodDef.renamed r) }

/-- The same file under other names. -/
def DexFile.renamed (r : Renaming) (d : DexFile) : DexFile :=
  { d with classes := d.classes.map (ClassDef.renamed r) }

namespace Renaming

/-- All parts are renamed, and all that constants refer to. -/
structure Thorough (r : Renaming) : Prop where
  values : r.values = .references
  untouched : r.untouched = []

namespace Thorough

variable {r : Renaming} (h : r.Thorough)

include h

theorem apply_eq {α : Type} (part : Part) (change : α → α) (a : α) : r.apply part change a = change a := by
  rw [apply, h.untouched]
  exact if_neg List.not_mem_nil

theorem value_eq (v : Value) : r.value v = r.referencesIn v := by
  rw [value, h.values]

theorem element_eq (e : String × Value) : r.element e = (e.1, r.referencesIn e.2) := by
  rw [element, h.apply_eq]
  exact congrArg (e.1, ·) (h.value_eq e.2)

theorem referencesInElements_eq (es : Elements) : r.referencesInElements es = es.map r.element := by
  induction es with
  | nil => rfl
  | cons e es ih =>
    rw [referencesInElements, ih, h.untouched, if_neg List.not_mem_nil, List.map_cons, h.element_eq]

/-- Renaming keeps the names of elements, and so their order. -/
theorem sorted_map_element (es : Elements) : Elements.sorted (es.map r.element) = (Elements.sorted es).map r.element :=
  (List.map_mergeSort fun a _ b _ => by rw [h.element_eq, h.element_eq]).symm

theorem instruction_eq (i : Instruction Reference) : r.instruction i = i.map r.reference :=
  h.apply_eq ..

/-! ## Copies -/

theorem toAnnotationItem_annotationItem (a : AnnotationItem) :
    (r.annotationItem a.view).toAnnotationItem = .ok (a.renamed r) := by
  rw [annotationItem, h.apply_eq]
  rfl

theorem collect_viewAll (annotations : List AnnotationItem) :
    AnnotationView.collect ((AnnotationItem.viewAll annotations).map r.annotationItem) =
      .ok (annotations.map (AnnotationItem.renamed r)) := by
  rw [AnnotationView.collect, Result.map_andThen]
  exact Result.collect_ofList_map fun a _ => h.toAnnotationItem_annotationItem a

theorem toCode_code (c : Code) : (r.code c.view).toCode = .ok (c.renamed r) := by
  have hinstructions : c.view.instructions.map (fun i => i.map r.instruction) =
      (c.instructions.map (Instruction.map r.reference)).map .ok := by
    simp only [Code.view, List.map_map]
    exact List.map_congr_left fun i _ => congrArg Except.ok (h.instruction_eq i)
  have hdebug : c.view.debug.map (fun item => item.map r.debugItem) = (c.debug.map r.debugItem).map .ok := by
    simp only [Code.view, List.map_map]
    rfl
  rw [code, h.apply_eq, CodeView.toCode]
  dsimp only
  rw [hinstructions, Result.collect_map_ok, Result.ok_bind, hdebug, Result.collect_map_ok]
  rfl

theorem toField_fieldView (f : FieldDef) : (r.fieldView f.view).toField = .ok (f.renamed r) := by
  rw [fieldView, h.apply_eq]
  show (AnnotationView.collect ((AnnotationItem.viewAll f.annotations).map r.annotationItem) >>= _) = _
  rw [h.collect_viewAll]
  rfl

theorem parameter_eq (p : Parameter) (type : String) : r.parameter p type = .ok (p.renamed r type) := by
  rw [parameter, Result.mapM_ok fun a _ => h.toAnnotationItem_annotationItem a]
  rfl

theorem parameters_methodView (m : MethodDef) : (r.methodView m.view).parameters = .ok (m.renamed r).parameters := by
  rw [methodView, h.apply_eq]
  exact Result.mapM_ok fun p _ => h.parameter_eq p.1 p.2

theorem toCode?_methodView (m : MethodDef) : (r.methodView m.view).toCode? = .ok (m.renamed r).code := by
  rw [methodView, h.apply_eq, MethodView.toCode?]
  dsimp only [MethodDef.view, MethodDef.renamed]
  cases m.code with
  | none => rfl
  | some code =>
    show ((r.code code.view).toCode >>= _) = _
    rw [h.toCode_code]
    rfl

theorem toMethod_methodView (m : MethodDef) : (r.methodView m.view).toMethod = .ok (m.renamed r) := by
  have hparts : (r.methodView m.view).name = .ok (m.renamed r).name ∧
      (r.methodView m.view).definingClass = .ok (m.renamed r).definingClass ∧
      (r.methodView m.view).returnType = .ok (m.renamed r).returnType ∧
      (r.methodView m.view).flags = m.flags ∧ (r.methodView m.view).hidden = .ok m.hidden ∧
      (r.methodView m.view).annotations = (AnnotationItem.viewAll m.annotations).map r.annotationItem := by
    rw [methodView, h.apply_eq]
    exact ⟨rfl, rfl, rfl, rfl, rfl, rfl⟩
  obtain ⟨hname, hclass, hreturn, hflags, hhidden, hannotations⟩ := hparts
  rw [MethodView.toMethod, hname, Result.ok_bind, MethodView.toMethodNamed, h.toCode?_methodView, Result.ok_bind, hclass,
    Result.ok_bind, h.parameters_methodView, Result.ok_bind, hreturn, Result.ok_bind, hannotations, h.collect_viewAll,
    Result.ok_bind, hhidden, hflags]
  rfl

theorem collect_fieldViews (fields : List FieldDef) :
    FieldView.collect ((fields.map fun f => (.ok f.view : Result FieldView)).map fun f => f.map r.fieldView) =
      .ok (fields.map (FieldDef.renamed r)) := by
  rw [FieldView.collect, List.map_map, List.map_map]
  exact Result.collect_map_eq fun f _ => h.toField_fieldView f

theorem collect_methodViews (methods : List MethodDef) :
    MethodView.collect ((methods.map fun m => (.ok m.view : Result MethodView)).map fun m => m.map r.methodView) =
      .ok (methods.map (MethodDef.renamed r)) := by
  rw [MethodView.collect, List.map_map, List.map_map]
  exact Result.collect_map_eq fun m _ => h.toMethod_methodView m

theorem toClass_classView (c : ClassDef) : (r.classView c.view).toClass = .ok (c.renamed r) := by
  rw [classView, h.apply_eq, ClassView.toClass]
  show (ClassView.toClassOf _ (r.type c.type)).within _ = _
  rw [ClassView.toClassOf]
  dsimp only [ClassDef.view]
  rw [h.collect_viewAll, h.collect_fieldViews, h.collect_fieldViews, h.collect_methodViews, h.collect_methodViews]
  rfl

/-- The copy of a renamed file is the file under its new names. -/
theorem toDexFile_fileView (d : DexFile) : (r.fileView d.view).toDexFile = .ok (d.renamed r) := by
  have hclasses : ((d.view.classes.map r.classView).andThen ClassView.toClass).collect =
      .ok (d.classes.map (ClassDef.renamed r)) := by
    rw [Result.map_andThen]
    exact Result.collect_ofList_map fun c _ => h.toClass_classView c
  rw [fileView, h.apply_eq, FileView.toDexFile]
  dsimp only
  rw [hclasses]
  rfl

end Thorough

end Renaming

end Dalvik
