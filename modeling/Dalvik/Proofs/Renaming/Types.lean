import Dalvik.Proofs.Assembly.Stability
import Dalvik.Proofs.Renaming.Composition
import Dalvik.Proofs.Renaming.Default

/-!
# Renaming types

`DexFile.retyped` copies a file whose types have been given other names wherever they
occur. That always works, and it respects the identity and the composition of functions
(`DexFile.retyped_functorial`).
-/

namespace Dalvik

/-! ## Files whose annotations are in order -/

/-- The elements of an annotation are in the order of their names. -/
def AnnotationItem.InOrder (a : AnnotationItem) : Prop :=
  a.elements.Pairwise fun e e' => (Utf16.compare e.1 e'.1).isLE

/-- The annotations of a class, of its members and of their parameters are in order. -/
structure ClassDef.InOrder (c : ClassDef) : Prop where
  annotations : ∀ a ∈ c.annotations, a.InOrder
  fields : ∀ f ∈ c.fields, ∀ a ∈ f.annotations, a.InOrder
  methods : ∀ m ∈ c.methods, ∀ a ∈ m.annotations, a.InOrder
  parameters : ∀ m ∈ c.methods, ∀ p ∈ m.parameters, ∀ a ∈ p.annotations, a.InOrder

theorem AnnotationItem.InOrder.arranged_eq {a : AnnotationItem} (h : a.InOrder) : a.arranged = a :=
  congrArg (AnnotationItem.mk a.visibility a.type) (List.mergeSort_of_pairwise h)

theorem AnnotationItem.map_arranged_of_inOrder {annotations : List AnnotationItem}
    (h : ∀ a ∈ annotations, a.InOrder) : annotations.map arranged = annotations :=
  map_eq_self fun a ha => (h a ha).arranged_eq

theorem ClassDef.InOrder.arranged_eq {c : ClassDef} (h : c.InOrder) : c.arranged = c := by
  have hfields {fields : List FieldDef} (hsub : fields ⊆ c.fields) : fields.map FieldDef.arranged = fields := by
    refine map_eq_self fun f hf => ?_
    rw [FieldDef.arranged, AnnotationItem.map_arranged_of_inOrder (h.fields f (hsub hf))]
  have hmethods {methods : List MethodDef} (hsub : methods ⊆ c.methods) : methods.map MethodDef.arranged = methods := by
    refine map_eq_self fun m hm => ?_
    rw [MethodDef.arranged, AnnotationItem.map_arranged_of_inOrder (h.methods m (hsub hm))]
  rw [ClassDef.arranged, AnnotationItem.map_arranged_of_inOrder h.annotations, hfields (List.subset_append_left _ _),
    hfields (List.subset_append_right _ _), hmethods (List.subset_append_left _ _),
    hmethods (List.subset_append_right _ _)]

namespace DexFile

variable {d : DexFile}

theorem toDexFile_view (h : ∀ c ∈ d.classes, c.InOrder) : d.view.toDexFile = .ok d := by
  have hclasses : (d.view.classes.andThen ClassView.toClass).collect = .ok (d.classes.map id) :=
    Result.collect_ofList_map fun c hc => c.toClass_view.trans (congrArg Except.ok (h c hc).arranged_eq)
  rw [FileView.toDexFile, hclasses, List.map_id]
  rfl

theorem typed_view (h : ∀ c ∈ d.classes, c.InOrder) : d.view.Typed := by
  intro i view hview m hm
  obtain ⟨c, hc, rfl⟩ := List.mem_map.mp (Result.mem_of_get_ofList hview)
  have hmethods : c.view.methods = c.methods.map fun m => .ok m.view := List.map_append.symm
  rw [hmethods] at hm
  obtain ⟨method, hmethod, heq⟩ := List.mem_map.mp hm
  cases heq
  rintro parameters ⟨⟩
  exact ⟨rfl, fun p hp a ha => ((h c hc).parameters method hmethod p hp a ha).arranged_eq⟩

end DexFile

/-! ## Other names for types -/

/-- Other names for types, also in the signatures of fields and methods. -/
def Renaming.ofTypes (f : String → String) : Renaming :=
  { type := f }

namespace Renaming

variable (f g : String → String)

theorem thorough_ofTypes : (ofTypes f).Thorough := ⟨rfl, rfl⟩

theorem keepsParameterCounts_ofTypes : (ofTypes f).KeepsParameterCounts := fun _ => List.length_map _

theorem andThen_ofTypes : (ofTypes f).andThen (ofTypes g) = ofTypes (g ∘ f) := by
  have hmethod : MethodSig.mapTypes g ∘ MethodSig.mapTypes f = MethodSig.mapTypes (g ∘ f) :=
    funext fun m => congrArg (MethodSig.mk _ _ · _) (List.map_map ..)
  exact congrArg (fun method => ({ type := g ∘ f, method } : Renaming)) hmethod

end Renaming

namespace DexFile

/-- The copy of a file whose types have other names. -/
def retyped (f : String → String) (d : DexFile) : Result DexFile :=
  ((Renaming.ofTypes f).fileView d.view).toDexFile

theorem retyped_eq (f : String → String) (d : DexFile) : d.retyped f = .ok (d.renamed (.ofTypes f)) :=
  (Renaming.thorough_ofTypes f).toDexFile_fileView d

/-- Renaming types twice is to rename them once. -/
theorem renamed_ofTypes (f g : String → String) (d : DexFile) :
    (d.renamed (.ofTypes f)).renamed (.ofTypes g) = d.renamed (.ofTypes (g ∘ f)) := by
  rw [(Renaming.thorough_ofTypes f).renamed_file (Renaming.thorough_ofTypes g) (Renaming.keepsParameterCounts_ofTypes f),
    Renaming.andThen_ofTypes]

/-- Renaming types respects identity and composition, and a file in an image that is
renamed by nothing is copied as it is. -/
theorem retyped_functorial :
    (∀ d : DexFile, (∀ c ∈ d.classes, c.InOrder) → d.retyped id = .ok d) ∧
      (∀ (d : DexFile) (f g : String → String), ∃ e copy,
        d.retyped f = .ok e ∧ e.retyped g = .ok copy ∧ d.retyped (g ∘ f) = .ok copy) ∧
      ∀ (image : Image) (d : DexFile), image.toDexFile = .ok d →
        (({} : Renaming).fileView image.view).toDexFile = .ok d := by
  refine ⟨fun d hd => ?_, fun d f g => ?_, fun image d hd => ?_⟩
  · exact Renaming.toDexFile_default (typed_view hd) (toDexFile_view hd)
  · exact ⟨_, _, d.retyped_eq f, retyped_eq g _, renamed_ofTypes f g d ▸ d.retyped_eq (g ∘ f)⟩
  · exact Renaming.toDexFile_default image.typed_view hd

/-- What the parameter of `labelled` says of itself. -/
def label : AnnotationItem where
  visibility := .runtime
  type := "LNote;"
  elements := [("kind", .enum ⟨"LKind;", "LOW", "LKind;"⟩), ("limit", .int 3)]

/-- A file with a method whose parameter is annotated. -/
def labelled : DexFile where
  opcodes := .standard
  classes := [{
    type := "LA;"
    flags := ⟨0x401⟩
    superclass := some "Ljava/lang/Object;"
    interfaces := []
    sourceFile := none
    annotations := []
    staticFields := []
    instanceFields := []
    directMethods := []
    virtualMethods := [{
      definingClass := "LA;"
      name := "m"
      parameters := [{ type := "I", annotations := [label] }]
      returnType := "V"
      flags := ⟨0x401⟩ }] }]

theorem inOrder_labelled : ∀ c ∈ labelled.classes, c.InOrder := by
  intro c hc
  cases List.mem_singleton.mp hc
  have hlabel : label.InOrder := by
    refine .cons (fun e he => ?_) (List.pairwise_singleton _ _)
    cases List.mem_singleton.mp he
    decide
  exact {
    annotations := nofun
    fields := nofun
    methods := fun m hm => by cases List.mem_singleton.mp hm; exact nofun
    parameters := fun m hm p hp a ha => by
      cases List.mem_singleton.mp hm
      cases List.mem_singleton.mp hp
      cases List.mem_singleton.mp ha
      exact hlabel }

/-- A file with an annotated parameter, and a file that has been written. -/
theorem retyped_functorial_labelled : (∀ c ∈ labelled.classes, c.InOrder) ∧ labelled.retyped id = .ok labelled ∧
    (∃ e copy, labelled.retyped (fun t => "[" ++ t) = .ok e ∧ e.retyped (fun t => t ++ "x") = .ok copy ∧
      labelled.retyped ((fun t => t ++ "x") ∘ fun t => "[" ++ t) = .ok copy) ∧
    ∃ (image : Image) (d : DexFile), image.toDexFile = .ok d ∧ (({} : Renaming).fileView image.view).toDexFile = .ok d := by
  obtain ⟨-, image, d, -, -, -, hread⟩ := exists_toDexFile_repeated
  exact ⟨inOrder_labelled, retyped_functorial.1 labelled inOrder_labelled, retyped_functorial.2.1 labelled _ _,
    image, d, hread, retyped_functorial.2.2 image d hread⟩

end DexFile

end Dalvik
