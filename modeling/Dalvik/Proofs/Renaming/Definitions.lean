import Dalvik.Proofs.Renaming.Types
import Dalvik.Proofs.Renaming.Uses

/-!
# Definitions and uses

`FileView.definitions` lists the members that the classes of a file define, with their
places. A renaming changes definitions and uses alike (`Renaming.renamed_together`): what
named a member that is defined in a file names it afterwards.
-/

namespace Dalvik

open Uses

/-! ## What a file defines -/

/-- The fields and methods that a class defines. -/
def ClassDef.definitions (c : ClassDef) : Uses :=
  each .staticField (fun f => [([], .field f.sig)]) 0 c.staticFields ++
    each .instanceField (fun f => [([], .field f.sig)]) 0 c.instanceFields ++
    each .directMethod (fun m => [([], .method m.sig)]) 0 c.directMethods ++
    each .virtualMethod (fun m => [([], .method m.sig)]) 0 c.virtualMethods

/-- The fields and methods that a file defines. -/
def DexFile.definitions (d : DexFile) : Uses :=
  each .classDef ClassDef.definitions 0 d.classes

/-- What is told of the signature of a field. -/
def FieldView.definition (f : FieldView) : Result Uses :=
  f.sig.map fun sig => [([], .field sig)]

/-- What is told of the signature of a method. -/
def MethodView.definition (m : MethodView) : Result Uses :=
  m.sig.map fun sig => [([], .method sig)]

/-- What is told of the members of a class. -/
def ClassView.definitions (c : ClassView) : Result Uses := do
  let staticFields ← Result.collect (c.staticFields.map fun f => f >>= FieldView.definition)
  let instanceFields ← Result.collect (c.instanceFields.map fun f => f >>= FieldView.definition)
  let directMethods ← Result.collect (c.directMethods.map fun m => m >>= MethodView.definition)
  let virtualMethods ← Result.collect (c.virtualMethods.map fun m => m >>= MethodView.definition)
  return each .staticField id 0 staticFields ++ each .instanceField id 0 instanceFields ++
    each .directMethod id 0 directMethods ++ each .virtualMethod id 0 virtualMethods

/-- What is told of the members of all classes. -/
def FileView.definitions (file : FileView) : Result Uses :=
  (file.classes.andThen ClassView.definitions).collect.map (each .classDef id 0)

theorem ClassDef.definitions_view (c : ClassDef) : c.view.definitions = .ok c.definitions := by
  have hfields (fields : List FieldDef) :
      Result.collect ((fields.map fun f => (.ok f.view : Result FieldView)).map fun f => f >>= FieldView.definition) =
        .ok (fields.map fun f => [([], .field f.sig)]) := by
    rw [List.map_map]
    exact Result.collect_map_eq fun f _ => rfl
  have hmethods (methods : List MethodDef) :
      Result.collect ((methods.map fun m => (.ok m.view : Result MethodView)).map fun m => m >>= MethodView.definition) =
        .ok (methods.map fun m => [([], .method m.sig)]) := by
    rw [List.map_map]
    exact Result.collect_map_eq fun m _ => rfl
  rw [ClassView.definitions]
  dsimp only [view]
  rw [hfields, Result.ok_bind, hfields, Result.ok_bind, hmethods, Result.ok_bind, hmethods, Result.ok_bind]
  simp only [each_map, id]
  rfl

theorem DexFile.definitions_view (d : DexFile) : d.view.definitions = .ok d.definitions := by
  have hclasses : (d.view.classes.andThen ClassView.definitions).collect = .ok (d.classes.map ClassDef.definitions) :=
    Result.collect_ofList_map fun c _ => c.definitions_view
  rw [FileView.definitions, hclasses]
  exact congrArg Except.ok (each_map ..)

/-! ## Definitions under other names -/

namespace Renaming

theorem each_id (r : Renaming) (step : Nat → Step) (index : Nat) (l : List Uses) :
    each step id index (l.map r.uses) = r.uses (each step id index l) := by
  rw [each_map]
  exact r.uses_each step (fun _ => rfl) index l

namespace Thorough

variable {r : Renaming} (h : r.Thorough)

include h

/-- A field is shown with its new signature. -/
theorem sig_fieldView (f : FieldView) : (r.fieldView f).sig = f.sig.map r.field := by
  rw [fieldView, h.apply_eq, FieldView.sig]
  dsimp only
  cases f.sig <;> rfl

/-- A method is shown with its new signature. -/
theorem sig_methodView (m : MethodView) : (r.methodView m).sig = m.sig.map r.method := by
  rw [methodView, h.apply_eq, MethodView.sig]
  dsimp only
  cases m.sig <;> rfl

theorem definition_fieldView (f : FieldView) : (r.fieldView f).definition = f.definition.map r.uses := by
  rw [FieldView.definition, FieldView.definition, h.sig_fieldView]
  cases f.sig <;> rfl

theorem definition_methodView (m : MethodView) : (r.methodView m).definition = m.definition.map r.uses := by
  rw [MethodView.definition, MethodView.definition, h.sig_methodView]
  cases m.sig <;> rfl

omit h in
/-- Members that are defined under their new names one by one are so together. -/
theorem collect_definitions {α : Type} {change : α → α} {definition : α → Result Uses}
    (hone : ∀ a, definition (change a) = (definition a).map r.uses) (members : List (Result α)) :
    Result.collect ((members.map (Except.map change)).map fun m => m >>= definition) =
      (Result.collect (members.map fun m => m >>= definition)).map (List.map r.uses) := by
  rw [← Result.collect_map_map, List.map_map, List.map_map]
  refine congrArg Result.collect (List.map_congr_left fun m _ => ?_)
  rw [Function.comp_apply, Function.comp_apply, Result.map_bind, Result.bind_map]
  exact congrArg (m >>= ·) (funext hone)

theorem definitions_classView (c : ClassView) : (r.classView c).definitions = c.definitions.map r.uses := by
  rw [classView, h.apply_eq, ClassView.definitions, ClassView.definitions]
  dsimp only
  rw [collect_definitions h.definition_fieldView, collect_definitions h.definition_fieldView,
    collect_definitions h.definition_methodView, collect_definitions h.definition_methodView]
  simp only [Result.map_bind, Result.bind_map, each_id, ← uses_append]
  rfl

/-- The definitions of a file are shown under their new names. -/
theorem definitions_fileView (file : FileView) : (r.fileView file).definitions = file.definitions.map r.uses := by
  have hclasses : (file.classes.map r.classView).andThen ClassView.definitions =
      (file.classes.andThen ClassView.definitions).map r.uses := by
    rw [Result.map_andThen, funext h.definitions_classView]
    exact congrArg (Items.mk file.classes.count) (funext fun i => (Result.bind_map ..).symm)
  rw [fileView, h.apply_eq, FileView.definitions, FileView.definitions, hclasses, Result.collect_map_items]
  cases (file.classes.andThen ClassView.definitions).collect with
  | error e => rfl
  | ok definitions => exact congrArg Except.ok (r.each_id .classDef 0 definitions)

end Thorough

/-- Definitions and uses get new names by the same functions. Every field and method of a
renamed file has its new signature, and so has every member that the file refers to, at the
place where it does; the elements of annotations are listed by their names. Only the
parameters go that a method does not have under its new name. So what named a member that
is defined in the file names it afterwards. -/
theorem renamed_together (type : String → String) (field : FieldSig → FieldSig) (method : MethodSig → MethodSig)
    (d : DexFile) :
    let r : Renaming := { type, field, method }
    d.view.definitions = .ok d.definitions ∧ (r.fileView d.view).definitions = .ok (r.uses d.definitions) ∧
      ((∀ c ∈ d.classes, ∀ m ∈ c.methods, m.parameters.length ≤ (method m.sig).parameters.length) → d.cut r = d) ∧
      ∃ copy, (r.fileView d.view).toDexFile = .ok copy ∧ copy.uses = r.uses (d.cut r).listed.uses ∧
        ∀ place definition member, (place, member) ∈ (d.cut r).listed.uses → (definition, member) ∈ d.definitions →
          (place, r.member member) ∈ copy.uses ∧ (definition, r.member member) ∈ r.uses d.definitions := by
  intro r
  have hr : r.Thorough := ⟨rfl, rfl⟩
  have huses := hr.uses_file d
  refine ⟨d.definitions_view, ?_, fun hkept => DexFile.cut_eq (r := r) hkept, d.renamed r, hr.toDexFile_fileView d, huses,
    ?_⟩
  · rw [hr.definitions_fileView, d.definitions_view]
    rfl
  · intro place definition member hplace hdefinition
    exact ⟨huses ▸ List.mem_map_of_mem hplace, List.mem_map_of_mem hdefinition⟩

end Renaming

namespace DexFile

/-- A file whose annotations are in order is listed as it is. -/
theorem listed_eq {d : DexFile} (h : ∀ c ∈ d.classes, c.InOrder) : d.listed = d := by
  have hmethods {c : ClassDef} (hc : c.InOrder) {methods : List MethodDef} (hsub : methods ⊆ c.methods) :
      methods.map MethodDef.listed = methods := by
    refine map_eq_self fun m hm => ?_
    have hparameters : m.parameters.map Parameter.arranged = m.parameters := by
      refine map_eq_self fun p hp => ?_
      rw [Parameter.arranged, AnnotationItem.map_arranged_of_inOrder (hc.parameters m (hsub hm) p hp)]
    rw [MethodDef.listed, MethodDef.arranged, AnnotationItem.map_arranged_of_inOrder (hc.methods m (hsub hm)),
      hparameters]
  have hclasses : d.classes.map ClassDef.listed = d.classes := by
    refine map_eq_self fun c hc => ?_
    rw [ClassDef.listed, (h c hc).arranged_eq, hmethods (h c hc) (List.subset_append_left _ _),
      hmethods (h c hc) (List.subset_append_right _ _)]
  rw [listed, hclasses]

/-- Other names for the field that the label refers to and for the method, which has no
parameter any more. -/
def relabelling : Renaming where
  field := Renaming.lookup [(⟨"LKind;", "LOW", "LKind;"⟩, ⟨"LKind;", "HIGH", "LKind;"⟩)]
  method := Renaming.lookup [(⟨"LA;", "m", ["I"], "V"⟩, ⟨"LA;", "m", [], "V"⟩)]

/-- A file with a field that starts with the value of another one. -/
def kinds : DexFile where
  opcodes := .standard
  classes := [{
    type := "LKind;"
    flags := ⟨0x4011⟩
    superclass := some "Ljava/lang/Enum;"
    interfaces := []
    sourceFile := none
    annotations := []
    staticFields := [
      { definingClass := "LKind;", name := "FIRST", type := "LKind;", flags := ⟨0x19⟩
        value := some (.enum ⟨"LKind;", "LOW", "LKind;"⟩) },
      { definingClass := "LKind;", name := "LOW", type := "LKind;", flags := ⟨0x4019⟩ }]
    instanceFields := []
    directMethods := []
    virtualMethods := [] }]

/-- The first field starts with the value of the second one also under its new name. -/
theorem renamed_together_kinds :
    let use : List Step := [.classDef 0, .staticField 0, .value, .enum]
    let definition : List Step := [.classDef 0, .staticField 1]
    let low : HandleMember := .field ⟨"LKind;", "LOW", "LKind;"⟩
    kinds.cut relabelling = kinds ∧ (use, low) ∈ (kinds.cut relabelling).listed.uses ∧
      (definition, low) ∈ kinds.definitions ∧
      ∃ copy, (relabelling.fileView kinds.view).toDexFile = .ok copy ∧ (use, relabelling.member low) ∈ copy.uses ∧
        (definition, relabelling.member low) ∈ relabelling.uses kinds.definitions := by
  intro use definition low
  obtain ⟨-, -, hcut, copy, hcopy, -, hnamed⟩ := Renaming.renamed_together id relabelling.field relabelling.method kinds
  have huse : (use, low) ∈ (kinds.cut relabelling).listed.uses := List.mem_singleton.mpr rfl
  have hdefinition : (definition, low) ∈ kinds.definitions := List.mem_of_getElem? (i := 1) rfl
  have hkept : kinds.cut relabelling = kinds := hcut fun c hc m hm => by
    cases List.mem_singleton.mp hc
    cases hm
  exact ⟨hkept, huse, hdefinition, copy, hcopy, hnamed use definition low huse hdefinition⟩

/-- The field that the label refers to is not replaced: the label goes with the parameter. -/
theorem label_goes :
    let place : List Step :=
      [.classDef 0, .virtualMethod 0, .parameter 0, .annotationItem 0, .element 0 "kind", .enum]
    (place, .field ⟨"LKind;", "LOW", "LKind;"⟩) ∈ labelled.listed.uses ∧
      ∃ copy, (relabelling.fileView labelled.view).toDexFile = .ok copy ∧ ∀ member, (place, member) ∉ copy.uses := by
  have huses : (labelled.renamed relabelling).uses = [] := rfl
  refine ⟨?_, _, Renaming.Thorough.toDexFile_fileView ⟨rfl, rfl⟩ labelled, fun member hmember => ?_⟩
  · rw [listed_eq inOrder_labelled]
    exact List.mem_singleton.mpr rfl
  · rw [huses] at hmember
    cases hmember

end DexFile

end Dalvik
