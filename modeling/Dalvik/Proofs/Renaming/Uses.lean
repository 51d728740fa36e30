import Dalvik.Proofs.Renaming.Copies

/-!
# Uses of members

`DexFile.uses` lists the fields and methods that a file refers to, each with the place where
it does. A renaming changes what stands at these places and nothing else
(`Renaming.Thorough.uses_file`). Only the parameters that a method does not have under its
new name go, with what their annotations refer to (`DexFile.cut`).
-/

namespace Dalvik

/-! ## Places -/

/-- A step from a part of a file to a part of that part. -/
inductive Step where
  | classDef (index : Nat)
  | staticField (index : Nat)
  | instanceField (index : Nat)
  | directMethod (index : Nat)
  | virtualMethod (index : Nat)
  | annotationItem (index : Nat)
  | parameter (index : Nat)
  /-- The value that a field starts with. -/
  | value
  | instruction (index : Nat)
  | operand (index : Nat)
  /-- The member of a method handle. -/
  | handle
  /-- The argument of a call site. -/
  | argument (index : Nat)
  /-- The item of an array. -/
  | item (index : Nat)
  | element (index : Nat) (name : String)
  /-- The field of an enum value. -/
  | enum
  deriving DecidableEq, Repr

/-- Members with the places where they stand. -/
abbrev Uses := List (List Step × HandleMember)

namespace Uses

/-- What stands in a part. -/
def below (step : Step) (uses : Uses) : Uses :=
  uses.map fun (place, member) => (step :: place, member)

/-- What stands in the parts of a list, whose steps begin at an index. -/
def each {α : Type} (step : Nat → Step) (uses : α → Uses) : (index : Nat) → List α → Uses
  | _, [] => []
  | index, a :: as => below (step index) (uses a) ++ each step uses (index + 1) as

end Uses

open Uses

/-! ## What a file refers to -/

mutual

/-- The members that a constant refers to. -/
def Value.uses : Value → Uses
  | .field f => [([], .field f)]
  | .enum f => [([.enum], .field f)]
  | .method m => [([], .method m)]
  | .handle h => [([.handle], h.member)]
  | .array values => Value.usesOfItems 0 values
  | .nested _ elements => Value.usesOfElements 0 elements
  | _ => []
termination_by structural v => v

/-- The members that the items of an array refer to, from an index on. -/
def Value.usesOfItems (index : Nat) : List Value → Uses
  | [] => []
  | v :: vs => below (.item index) v.uses ++ Value.usesOfItems (index + 1) vs
termination_by structural vs => vs

/-- The members that the elements of an annotation refer to, from an index on. -/
def Value.usesOfElements (index : Nat) : List (String × Value) → Uses
  | [] => []
  | (name, v) :: es => below (.element index name) v.uses ++ Value.usesOfElements (index + 1) es
termination_by structural es => es

end

/-- The members that a reference names. -/
def Reference.uses : Reference → Uses
  | .field f => [([], .field f)]
  | .method m => [([], .method m)]
  | .handle h => [([.handle], h.member)]
  | .callSite c => ([.handle], c.handle.member) :: each .argument Value.uses 0 c.arguments
  | .string _ | .type _ | .proto _ => []

/-- The members that a body refers to. -/
def Code.uses (c : Code) : Uses :=
  each .instruction (fun i => each .operand Reference.uses 0 i.references) 0 c.instructions

/-- The members that an annotation refers to. -/
def AnnotationItem.uses (a : AnnotationItem) : Uses :=
  Value.usesOfElements 0 a.elements

/-- The members that some annotations refer to. -/
def AnnotationItem.usesOfAll (annotations : List AnnotationItem) : Uses :=
  each .annotationItem AnnotationItem.uses 0 annotations

/-- The members that a field refers to. -/
def FieldDef.uses (f : FieldDef) : Uses :=
  below .value (f.value.elim [] Value.uses) ++ AnnotationItem.usesOfAll f.annotations

/-- The members that a method refers to. -/
def MethodDef.uses (m : MethodDef) : Uses :=
  AnnotationItem.usesOfAll m.annotations ++
    each .parameter (fun p => AnnotationItem.usesOfAll p.annotations) 0 m.parameters ++ m.code.elim [] Code.uses

/-- The members that a class refers to. -/
def ClassDef.uses (c : ClassDef) : Uses :=
  AnnotationItem.usesOfAll c.annotations ++ each .staticField FieldDef.uses 0 c.staticFields ++
    each .instanceField FieldDef.uses 0 c.instanceFields ++ each .directMethod MethodDef.uses 0 c.directMethods ++
    each .virtualMethod MethodDef.uses 0 c.virtualMethods

/-- The members that a file refers to. -/
def DexFile.uses (d : DexFile) : Uses :=
  each .classDef ClassDef.uses 0 d.classes

/-! ## Files whose annotations are in order -/

/-- The same parameter with its annotations in order. -/
def Parameter.arranged (p : Parameter) : Parameter :=
  { p with annotations := p.annotations.map AnnotationItem.arranged }

/-- The same method with all annotations in order, also those of the parameters. -/
def MethodDef.listed (m : MethodDef) : MethodDef :=
  { m.arranged with parameters := m.parameters.map Parameter.arranged }

/-- The same class with all annotations in order. -/
def ClassDef.listed (c : ClassDef) : ClassDef :=
  { c.arranged with
    directMethods := c.directMethods.map MethodDef.listed
    virtualMethods := c.virtualMethods.map MethodDef.listed }

/-- The same file with all annotations in order. -/
def DexFile.listed (d : DexFile) : DexFile :=
  { d with classes := d.classes.map ClassDef.listed }

/-! ## Parameters that are left -/

/-- The same method without the parameters that it does not have under its new name. -/
def MethodDef.cut (r : Renaming) (m : MethodDef) : MethodDef :=
  { m with parameters := m.parameters.take (r.method m.sig).parameters.length }

/-- The same class without the parameters that its methods do not have under their new
names. -/
def ClassDef.cut (r : Renaming) (c : ClassDef) : ClassDef :=
  { c with
    directMethods := c.directMethods.map (MethodDef.cut r)
    virtualMethods := c.virtualMethods.map (MethodDef.cut r) }

/-- The same file without the parameters that methods do not have under their new names. -/
def DexFile.cut (r : Renaming) (d : DexFile) : DexFile :=
  { d with classes := d.classes.map (ClassDef.cut r) }

/-- Nothing is cut if no method has fewer parameters under its new name. -/
theorem DexFile.cut_eq {r : Renaming} {d : DexFile}
    (h : ∀ c ∈ d.classes, ∀ m ∈ c.methods, m.parameters.length ≤ (r.method m.sig).parameters.length) : d.cut r = d := by
  have hmethods {c : ClassDef} (hc : c ∈ d.classes) {methods : List MethodDef} (hsub : methods ⊆ c.methods) :
      methods.map (MethodDef.cut r) = methods := by
    refine map_eq_self fun m hm => ?_
    rw [MethodDef.cut, List.take_of_length_le (h c hc m (hsub hm))]
  have hclasses : d.classes.map (ClassDef.cut r) = d.classes := by
    refine map_eq_self fun c hc => ?_
    rw [ClassDef.cut, hmethods hc (List.subset_append_left _ _), hmethods hc (List.subset_append_right _ _)]
  rw [cut, hclasses]

/-! ## Uses under other names -/

theorem Uses.each_map {α β : Type} (step : Nat → Step) (uses : β → Uses) (f : α → β) (index : Nat) (l : List α) :
    each step uses index (l.map f) = each step (fun a => uses (f a)) index l := by
  induction l generalizing index with
  | nil => rfl
  | cons a l ih => rw [List.map_cons, each, each, ih]

namespace Renaming

/-- The same places with the new names. -/
def uses (r : Renaming) (us : Uses) : Uses :=
  us.map fun (place, member) => (place, r.member member)

section uses

variable (r : Renaming)

theorem uses_append (us us' : Uses) : r.uses (us ++ us') = r.uses us ++ r.uses us' :=
  List.map_append

theorem uses_below (step : Step) (us : Uses) : r.uses (below step us) = below step (r.uses us) := by
  simp only [uses, below, List.map_map]
  rfl

/-- What is in parts that are renamed one by one. -/
theorem uses_each {α : Type} (step : Nat → Step) {usesOf usesOf' : α → Uses} (h : ∀ a, usesOf' a = r.uses (usesOf a))
    (index : Nat) (l : List α) : each step usesOf' index l = r.uses (each step usesOf index l) := by
  induction l generalizing index with
  | nil => rfl
  | cons a l ih => rw [each, each, uses_append, uses_below, h a, ih]

end uses

namespace Thorough

variable {r : Renaming}

mutual

theorem uses_referencesIn (h : r.Thorough) (v : Value) : (r.referencesIn v).uses = r.uses v.uses := by
  cases v with
  | array vs => exact usesOfItems_referencesInAll h 0 vs
  | nested t es => exact usesOfElements_referencesInElements h 0 es
  | _ => rfl
termination_by structural v

theorem usesOfItems_referencesInAll (h : r.Thorough) (index : Nat) (vs : List Value) :
    Value.usesOfItems index (r.referencesInAll vs) = r.uses (Value.usesOfItems index vs) := by
  cases vs with
  | nil => rfl
  | cons v vs =>
    rw [referencesInAll, Value.usesOfItems, Value.usesOfItems, uses_append, uses_below, uses_referencesIn h v,
      usesOfItems_referencesInAll h (index + 1) vs]
termination_by structural vs

theorem usesOfElements_referencesInElements (h : r.Thorough) (index : Nat) (es : List (String × Value)) :
    Value.usesOfElements index (r.referencesInElements es) = r.uses (Value.usesOfElements index es) := by
  cases es with
  | nil => rfl
  | cons e es =>
    obtain ⟨name, v⟩ := e
    rw [referencesInElements, h.untouched, if_neg List.not_mem_nil, Value.usesOfElements, Value.usesOfElements,
      uses_append, uses_below, uses_referencesIn h v, usesOfElements_referencesInElements h (index + 1) es]
termination_by structural es

end

variable (h : r.Thorough)

include h

theorem uses_value (v : Value) : (r.value v).uses = r.uses v.uses := by
  rw [h.value_eq, h.uses_referencesIn]

theorem uses_reference (reference : Reference) : (r.reference reference).uses = r.uses reference.uses := by
  cases reference with
  | callSite c =>
    show _ :: each .argument Value.uses 0 (c.arguments.map r.value) = _ :: r.uses _
    rw [each_map, r.uses_each _ h.uses_value]
    rfl
  | _ => rfl

theorem uses_code (c : Code) : (c.renamed r).uses = r.uses c.uses := by
  rw [Code.uses, Code.renamed, each_map]
  refine r.uses_each _ (fun i => ?_) 0 _
  rw [Instruction.references_map, each_map]
  exact r.uses_each _ h.uses_reference 0 _

theorem uses_annotation (a : AnnotationItem) : (a.renamed r).uses = r.uses a.arranged.uses := by
  show Value.usesOfElements 0 (Elements.sorted (a.elements.map r.element)) = _
  rw [h.sorted_map_element, ← h.referencesInElements_eq, h.usesOfElements_referencesInElements]
  rfl

theorem uses_annotations (annotations : List AnnotationItem) :
    AnnotationItem.usesOfAll (annotations.map (AnnotationItem.renamed r)) =
      r.uses (AnnotationItem.usesOfAll (annotations.map AnnotationItem.arranged)) := by
  rw [AnnotationItem.usesOfAll, AnnotationItem.usesOfAll, each_map, each_map]
  exact r.uses_each _ h.uses_annotation 0 _

theorem uses_field (f : FieldDef) : (f.renamed r).uses = r.uses f.arranged.uses := by
  have hvalue : (f.value.map r.value).elim [] Value.uses = r.uses (f.value.elim [] Value.uses) := by
    cases f.value with
    | none => rfl
    | some v => exact h.uses_value v
  rw [FieldDef.uses, FieldDef.uses, uses_append, uses_below]
  exact congrArg₂ (below .value · ++ ·) hvalue (h.uses_annotations f.annotations)

/-- A parameter has its annotations under their new names, whatever its new type is. -/
theorem uses_parameters (index : Nat) (parameters : List Parameter) (types : List String) :
    each .parameter (fun p => AnnotationItem.usesOfAll p.annotations) index
        ((parameters.zip types).map fun (p, type) => p.renamed r type) =
      r.uses (each .parameter (fun p => AnnotationItem.usesOfAll p.annotations) index
        ((parameters.take types.length).map Parameter.arranged)) := by
  induction parameters generalizing index types with
  | nil => cases types <;> rfl
  | cons p parameters ih =>
    cases types with
    | nil => rfl
    | cons type types =>
      rw [List.zip_cons_cons, List.map_cons, each, List.length_cons, List.take_succ_cons, List.map_cons, each,
        uses_append, uses_below, ih]
      exact congrArg (below (.parameter index) · ++ _) (h.uses_annotations p.annotations)

theorem uses_method (m : MethodDef) : (m.renamed r).uses = r.uses (m.cut r).listed.uses := by
  have hcode : (m.code.map (Code.renamed r)).elim [] Code.uses = r.uses (m.code.elim [] Code.uses) := by
    cases m.code with
    | none => rfl
    | some c => exact h.uses_code c
  rw [MethodDef.uses, MethodDef.uses, uses_append, uses_append]
  exact congrArg₂ (· ++ ·)
    (congrArg₂ (· ++ ·) (h.uses_annotations m.annotations) (h.uses_parameters 0 m.parameters _)) hcode

theorem uses_class (c : ClassDef) : (c.renamed r).uses = r.uses (c.cut r).listed.uses := by
  have hfields (step : Nat → Step) (fields : List FieldDef) :
      each step FieldDef.uses 0 (fields.map (FieldDef.renamed r)) =
        r.uses (each step FieldDef.uses 0 (fields.map FieldDef.arranged)) := by
    rw [each_map, each_map]
    exact r.uses_each _ h.uses_field 0 _
  have hmethods (step : Nat → Step) (methods : List MethodDef) :
      each step MethodDef.uses 0 (methods.map (MethodDef.renamed r)) =
        r.uses (each step MethodDef.uses 0 ((methods.map (MethodDef.cut r)).map MethodDef.listed)) := by
    rw [List.map_map, each_map, each_map]
    exact r.uses_each _ h.uses_method 0 _
  simp only [ClassDef.uses, ClassDef.renamed, ClassDef.listed, ClassDef.cut, ClassDef.arranged, uses_append,
    h.uses_annotations, hfields, hmethods]

/-- What a file refers to has its new names, where it is left. -/
theorem uses_file (d : DexFile) : (d.renamed r).uses = r.uses (d.cut r).listed.uses := by
  rw [DexFile.uses, DexFile.uses, DexFile.renamed, DexFile.listed, DexFile.cut, List.map_map, each_map, each_map]
  exact r.uses_each _ h.uses_class 0 _

end Thorough

end Renaming

end Dalvik
