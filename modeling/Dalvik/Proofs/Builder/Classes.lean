import Dalvik.Builder.Classes
import Dalvik.Proofs.Builder.Interning

/-!
# Interning classes

Interning a class makes the entries that are listed for it, and the handles that it is
kept with stand for its parts (`InternedClass.Codes`).
-/

namespace Dalvik.Builder

variable {p q : Pools}

/-! ## Members -/

theorem makes_debugEvent (e : DebugEvent) :
    Makes Always (internDebugEvent e) (Entry.ofDebugEvent e) fun _ _ => True := by
  cases e with
  | startLocal register name type signature =>
    have hentries : Entry.ofDebugEvent (.startLocal register name type signature) =
        Entry.ofString? name ++ (Entry.ofString? signature ++ Entry.ofType? type) := List.append_assoc ..
    rw [hentries]
    refine (makes_string? name).discard.bind fun _ => ?_
    exact (makes_string? signature).discard.anyway.bind fun _ => (makes_type? type).discard.anyway
  | setFile name => exact (makes_string? name).discard
  | _ => exact .pure fun _ _ => trivial

theorem makes_code (c : Code) : Makes Always (internCode c) (Entry.ofCode c) fun _ _ => True := by
  have hentries : Entry.ofCode c = c.instructions.flatMap (fun i => i.references.flatMap Entry.ofReference) ++
      (c.tries.flatMap (fun t => t.handlers.flatMap fun h => Entry.ofType? h.type) ++
        c.debug.flatMap fun d => Entry.ofDebugEvent d.event) := List.append_assoc ..
  rw [hentries]
  refine (Makes.forM _ fun i _ => .forM _ fun r _ => makes_reference r).bind fun _ => ?_
  refine (Makes.forM _ fun t _ => .forM _ fun h _ => (makes_type? h.type).discard).anyway.bind fun _ => ?_
  exact (Makes.forM _ fun d _ => makes_debugEvent d.event).anyway

/-- The handles of a field of a class stand for its parts. -/
structure InternedField.Codes (p : Pools) (k : InternedField) (f : FieldDef) : Prop where
  handle : k.handle.Names p.fields f.sig
  annotations : AnnotationSetCode p k.annotations f.annotations

theorem InternedField.Codes.mono (h : p.Extends q) {k : InternedField} {f : FieldDef} (hk : k.Codes p f) :
    k.Codes q f :=
  ⟨h.fields.names hk.handle, hk.annotations.mono h⟩

theorem makes_fieldDef (f : FieldDef) :
    Makes Always (internFieldDef f) (Entry.ofFieldDef f) fun p k => k.Codes p f := by
  refine (makes_field f.sig).bind fun handle => ?_
  rw [← List.append_nil (Entry.ofAnnotationSet f.annotations)]
  refine ((makes_annotationSet f.annotations).keeping fun _ _ h => h.fields.names).bind fun annotations => ?_
  exact .pure fun p h => ⟨h.2, h.1⟩

/-- There is a set for each parameter if any parameter is annotated. -/
def ParametersCode (p : Pools) (ks : List (Option (Handle AnnotationSetKey))) (parameters : List Parameter) : Prop :=
  if parameters.any fun x => !x.annotations.isEmpty then
    List.Forall₂ (fun k x => AnnotationSetCode p k x.annotations) ks parameters
  else ks = []

theorem ParametersCode.mono (h : p.Extends q) {ks : List (Option (Handle AnnotationSetKey))} {parameters : List Parameter}
    (hk : ParametersCode p ks parameters) : ParametersCode q ks parameters := by
  cases hany : parameters.any fun x => !x.annotations.isEmpty with
  | true =>
    rw [ParametersCode, if_pos hany] at hk ⊢
    exact hk.imp fun _ _ hx => hx.mono h
  | false =>
    rw [ParametersCode, if_neg (by simp [hany])] at hk ⊢
    exact hk

theorem makes_parameters (parameters : List Parameter) :
    Makes Always (internParameters parameters) (parameters.flatMap fun x => Entry.ofAnnotationSet x.annotations)
      fun p ks => ParametersCode p ks parameters := by
  unfold internParameters ParametersCode
  cases hany : parameters.any fun x => !x.annotations.isEmpty with
  | true =>
    exact .mapM (R := fun p k (x : Parameter) => AnnotationSetCode p k x.annotations)
      (fun _ _ _ _ h => AnnotationSetCode.mono h) parameters fun x _ => makes_annotationSet x.annotations
  | false =>
    have hnone : parameters.flatMap (fun x => Entry.ofAnnotationSet x.annotations) = [] := by
      rw [List.flatMap_eq_nil_iff]
      intro x hx
      have hempty : x.annotations.isEmpty = true := by simpa using List.any_eq_false.mp hany x hx
      rw [Entry.ofAnnotationSet, if_pos hempty]
    rw [hnone]
    exact .pure fun _ _ => rfl

/-- The handles of a method of a class stand for its parts. -/
structure InternedMethod.Codes (p : Pools) (k : InternedMethod) (m : MethodDef) : Prop where
  handle : k.handle.Names p.methods m.sig
  annotations : AnnotationSetCode p k.annotations m.annotations
  parameterAnnotations : ParametersCode p k.parameterAnnotations m.parameters
  parameterNames : List.Forall₂ (fun k x => Option.Rel (fun h s => h.Names p.strings s) k x.name) k.parameterNames m.parameters

theorem relNames_mono {κ α : Type} [BEq α] [Hashable α] {p q : Pool α} (h : p.Extends q) {k : Option (Handle κ)} {x : Option α}
    (hk : Option.Rel (fun h s => h.Names p s) k x) : Option.Rel (fun h s => h.Names q s) k x := by
  cases hk with
  | none => exact .none
  | some hx => exact .some (h.names hx)

theorem forall₂_toList {α β : Type} {R : α → β → Prop} {k : Option α} {x : Option β} (h : Option.Rel R k x) :
    List.Forall₂ R k.toList x.toList := by
  cases h with
  | none => exact .nil
  | some hx => exact .cons hx .nil

theorem InternedMethod.Codes.mono (h : p.Extends q) {k : InternedMethod} {m : MethodDef} (hk : k.Codes p m) :
    k.Codes q m :=
  ⟨h.methods.names hk.handle, hk.annotations.mono h, hk.parameterAnnotations.mono h,
    hk.parameterNames.imp fun _ _ hx => relNames_mono h.strings hx⟩

theorem makes_methodDef (m : MethodDef) :
    Makes Always (internMethodDef m) (Entry.ofMethodDef m) fun p k => k.Codes p m := by
  have hentries : Entry.ofMethodDef m = m.parameters.flatMap (fun x => Entry.ofAnnotationSet x.annotations) ++
      (m.parameters.flatMap (fun x => Entry.ofString? x.name) ++ (m.code.toList.flatMap Entry.ofCode ++
        (Entry.ofMethod m.sig ++ (Entry.ofAnnotationSet m.annotations ++ [])))) := by
    simp only [Entry.ofMethodDef, List.append_assoc, List.append_nil]
  rw [hentries]
  refine (makes_parameters m.parameters).bind fun parameterAnnotations => ?_
  have hnames := Makes.mapM
    (R := fun p k (x : Parameter) => Option.Rel (fun (h : Handle String) s => h.Names p.strings s) k x.name)
    (fun _ _ _ _ h => relNames_mono h.strings) m.parameters fun x _ => makes_string? x.name
  refine (hnames.keeping fun _ _ h => ParametersCode.mono h).bind fun parameterNames => ?_
  have hlast : Lasting fun p =>
      List.Forall₂ (fun k x => Option.Rel (fun h s => h.Names p.strings s) k x.name) parameterNames m.parameters ∧
        ParametersCode p parameterAnnotations m.parameters :=
    fun _ _ h hk => ⟨hk.1.imp fun _ _ hx => relNames_mono h.strings hx, hk.2.mono h⟩
  refine ((Makes.forM _ fun c _ => makes_code c).keeping hlast).bind fun _ => ?_
  refine ((makes_method m.sig).keeping fun _ _ h hk => ⟨trivial, hlast h hk.2⟩).bind fun handle => ?_
  refine ((makes_annotationSet m.annotations).keeping fun _ _ h hk =>
    ⟨h.methods.names hk.1, trivial, hlast h hk.2.2⟩).bind fun annotations => ?_
  exact .pure fun p h => {
    annotations := h.1
    handle := h.2.1
    parameterNames := h.2.2.2.1
    parameterAnnotations := h.2.2.2.2 }

/-! ## Classes -/

/-- Initial values have a handle unless there are none. -/
def StaticValuesCode (p : Pools) : Option (Handle (List Value)) → List Value → Prop :=
  Code? (· ≠ []) fun h vs => h.Names p.arrays vs

theorem StaticValuesCode.mono (h : p.Extends q) {k : Option (Handle (List Value))} {vs : List Value}
    (hk : StaticValuesCode p k vs) : StaticValuesCode q k vs :=
  Code?.imp (fun _ _ hx => h.arrays.names hx) hk

theorem makes_staticValues (vs : List Value) :
    Makes Always (internStaticValues vs) (Entry.ofStaticValues vs) fun p k => StaticValuesCode p k vs := by
  unfold internStaticValues Entry.ofStaticValues
  cases hempty : vs.isEmpty with
  | true => exact .pure fun _ _ => not_not.mpr (List.isEmpty_iff.mp hempty)
  | false => exact (makes_array vs).map fun _ _ h => ⟨by simpa using hempty, h⟩

/-- The handles of a class stand for its parts. -/
structure InternedClass.Codes (p : Pools) (k : InternedClass) (c : ClassDef) : Prop where
  definition : k.definition = c
  type : k.type.Names p.types c.type
  superclass : Option.Rel (fun h d => h.Names p.types d) k.superclass c.superclass
  interfaces : TypeListCode p k.interfaces c.interfaces
  sourceFile : Option.Rel (fun h s => h.Names p.strings s) k.sourceFile c.sourceFile
  annotations : AnnotationSetCode p k.annotations c.annotations
  staticValues : StaticValuesCode p k.staticValues c.staticValues
  staticFields : List.Forall₂ (InternedField.Codes p) k.staticFields c.staticFields
  instanceFields : List.Forall₂ (InternedField.Codes p) k.instanceFields c.instanceFields
  directMethods : List.Forall₂ (InternedMethod.Codes p) k.directMethods c.directMethods
  virtualMethods : List.Forall₂ (InternedMethod.Codes p) k.virtualMethods c.virtualMethods

theorem InternedClass.Codes.mono (h : p.Extends q) {k : InternedClass} {c : ClassDef} (hk : k.Codes p c) :
    k.Codes q c where
  definition := hk.definition
  type := h.types.names hk.type
  superclass := relNames_mono h.types hk.superclass
  interfaces := hk.interfaces.mono h
  sourceFile := relNames_mono h.strings hk.sourceFile
  annotations := hk.annotations.mono h
  staticValues := hk.staticValues.mono h
  staticFields := hk.staticFields.imp fun _ _ => .mono h
  instanceFields := hk.instanceFields.imp fun _ _ => .mono h
  directMethods := hk.directMethods.imp fun _ _ => .mono h
  virtualMethods := hk.virtualMethods.imp fun _ _ => .mono h

theorem makes_fieldDefs (fields : List FieldDef) :
    Makes Always (fields.mapM internFieldDef) (fields.flatMap Entry.ofFieldDef)
      fun p ks => List.Forall₂ (InternedField.Codes p) ks fields :=
  .mapM (fun _ _ _ _ h => .mono h) fields fun f _ => makes_fieldDef f

theorem makes_methodDefs (methods : List MethodDef) :
    Makes Always (methods.mapM internMethodDef) (methods.flatMap Entry.ofMethodDef)
      fun p ks => List.Forall₂ (InternedMethod.Codes p) ks methods :=
  .mapM (fun _ _ _ _ h => .mono h) methods fun m _ => makes_methodDef m

theorem makes_class (c : ClassDef) : Makes Always (internClass c) (Entry.ofClass c) fun p k => k.Codes p c := by
  have hentries : Entry.ofClass c = Entry.ofType c.type ++ (Entry.ofType? c.superclass ++
      (Entry.ofTypeList c.interfaces ++ (Entry.ofString? c.sourceFile ++ (Entry.ofAnnotationSet c.annotations ++
        (Entry.ofStaticValues c.staticValues ++ (c.staticFields.flatMap Entry.ofFieldDef ++
          (c.instanceFields.flatMap Entry.ofFieldDef ++ (c.directMethods.flatMap Entry.ofMethodDef ++
            (c.virtualMethods.flatMap Entry.ofMethodDef ++ []))))))))) := by
    simp only [Entry.ofClass, ClassDef.fields, ClassDef.methods, List.flatMap_append, List.append_assoc, List.append_nil]
  rw [hentries]
  -- What the handles stand for before some part is interned, they stand for afterwards.
  refine (makes_type c.type).bind fun type => ?_
  have htype : Lasting fun p => type.Names p.types c.type := fun _ _ h => h.types.names
  refine ((makes_type? c.superclass).keeping htype).bind fun superclass => ?_
  have hsuperclass : Lasting fun p => Option.Rel (fun h d => h.Names p.types d) superclass c.superclass ∧ _ :=
    .and (fun _ _ h => relNames_mono h.types) htype
  refine ((makes_typeList c.interfaces).keeping hsuperclass).bind fun interfaces => ?_
  have hinterfaces : Lasting fun p => TypeListCode p interfaces c.interfaces ∧ _ :=
    .and (fun _ _ h => TypeListCode.mono h) hsuperclass
  refine ((makes_string? c.sourceFile).keeping hinterfaces).bind fun sourceFile => ?_
  have hsourceFile : Lasting fun p => Option.Rel (fun h s => h.Names p.strings s) sourceFile c.sourceFile ∧ _ :=
    .and (fun _ _ h => relNames_mono h.strings) hinterfaces
  refine ((makes_annotationSet c.annotations).keeping hsourceFile).bind fun annotations => ?_
  have hannotations : Lasting fun p => AnnotationSetCode p annotations c.annotations ∧ _ :=
    .and (fun _ _ h => AnnotationSetCode.mono h) hsourceFile
  refine ((makes_staticValues c.staticValues).keeping hannotations).bind fun staticValues => ?_
  have hstaticValues : Lasting fun p => StaticValuesCode p staticValues c.staticValues ∧ _ :=
    .and (fun _ _ h => StaticValuesCode.mono h) hannotations
  refine ((makes_fieldDefs c.staticFields).keeping hstaticValues).bind fun staticFields => ?_
  have hstaticFields : Lasting fun p => List.Forall₂ (InternedField.Codes p) staticFields c.staticFields ∧ _ :=
    .and (fun _ _ h hk => hk.imp fun _ _ => .mono h) hstaticValues
  refine ((makes_fieldDefs c.instanceFields).keeping hstaticFields).bind fun instanceFields => ?_
  have hinstanceFields : Lasting fun p => List.Forall₂ (InternedField.Codes p) instanceFields c.instanceFields ∧ _ :=
    .and (fun _ _ h hk => hk.imp fun _ _ => .mono h) hstaticFields
  refine ((makes_methodDefs c.directMethods).keeping hinstanceFields).bind fun directMethods => ?_
  have hdirectMethods : Lasting fun p => List.Forall₂ (InternedMethod.Codes p) directMethods c.directMethods ∧ _ :=
    .and (fun _ _ h hk => hk.imp fun _ _ => .mono h) hinstanceFields
  refine ((makes_methodDefs c.virtualMethods).keeping hdirectMethods).bind fun virtualMethods => ?_
  refine .pure fun p ⟨hvirtualMethods, hdirectMethods, hinstanceFields, hstaticFields, hstaticValues, hannotations, hsourceFile,
    hinterfaces, hsuperclass, htype⟩ => ?_
  exact ⟨rfl, htype, hsuperclass, hinterfaces, hsourceFile, hannotations, hstaticValues, hstaticFields, hinstanceFields,
    hdirectMethods, hvirtualMethods⟩

end Dalvik.Builder
