import Dalvik.Proofs.Assembly.Entry
import Dalvik.Proofs.Renaming.Copies

/-!
# Renaming twice

Two renamings of a file, one after the other, are one renaming, `Renaming.andThen`
(`Renaming.Thorough.renamed_file`). The first one keeps the numbers of parameters: a method
that has got more parameter types than parameters would have a signature of its own to look
up.
-/

namespace Dalvik

namespace Renaming

/-- A renaming and then another one. -/
def andThen (r s : Renaming) : Renaming where
  type := s.type ∘ r.type
  field := s.field ∘ r.field
  method := s.method ∘ r.method

/-- Methods have as many parameters under their new names as before. -/
def KeepsParameterCounts (r : Renaming) : Prop :=
  ∀ m, (r.method m).parameters.length = m.parameters.length

/-- Methods that keep the number of their parameters have their new signatures. -/
theorem KeepsParameterCounts.sig_renamed {r : Renaming} (h : r.KeepsParameterCounts) (m : MethodDef) :
    (m.renamed r).sig = r.method m.sig := by
  have hlength : (r.method m.sig).parameters.length ≤ m.parameters.length :=
    ((h m.sig).trans (List.length_map _)).le
  have htypes : (m.renamed r).parameterTypes = (r.method m.sig).parameters := by
    rw [MethodDef.parameterTypes, MethodDef.renamed, List.map_map]
    exact List.map_snd_zip hlength
  exact congrArg (MethodSig.mk _ _ · _) htypes

theorem thorough_andThen (r s : Renaming) : (r.andThen s).Thorough := ⟨rfl, rfl⟩

/-! ## Signatures, handles and constants -/

section parts

variable (r s : Renaming)

theorem proto_proto (p : Prototype) : s.proto (r.proto p) = (r.andThen s).proto p := by
  simp only [proto, Prototype.mapTypes, List.map_map, andThen, Function.comp_apply]

theorem member_member (m : HandleMember) : s.member (r.member m) = (r.andThen s).member m := by
  cases m <;> rfl

theorem handle_handle (h : MethodHandle) : s.handle (r.handle h) = (r.andThen s).handle h := by
  simp only [handle, member_member]

end parts

variable {r s : Renaming}

namespace Thorough

mutual

theorem referencesIn_referencesIn (hr : r.Thorough) (hs : s.Thorough) (v : Value) :
    s.referencesIn (r.referencesIn v) = (r.andThen s).referencesIn v := by
  cases v with
  | proto p => exact congrArg Value.proto (proto_proto r s p)
  | handle h => exact congrArg Value.handle (handle_handle r s h)
  | array vs => exact congrArg Value.array (referencesInAll_referencesInAll hr hs vs)
  | nested t es =>
    exact congrArg (Value.nested (s.type (r.type t))) (referencesInElements_referencesInElements hr hs es)
  | _ => rfl
termination_by structural v

theorem referencesInAll_referencesInAll (hr : r.Thorough) (hs : s.Thorough) (vs : List Value) :
    s.referencesInAll (r.referencesInAll vs) = (r.andThen s).referencesInAll vs := by
  cases vs with
  | nil => rfl
  | cons v vs =>
    exact congrArg₂ List.cons (referencesIn_referencesIn hr hs v) (referencesInAll_referencesInAll hr hs vs)
termination_by structural vs

theorem referencesInElements_referencesInElements (hr : r.Thorough) (hs : s.Thorough) (es : List (String × Value)) :
    s.referencesInElements (r.referencesInElements es) = (r.andThen s).referencesInElements es := by
  cases es with
  | nil => rfl
  | cons e es =>
    obtain ⟨name, v⟩ := e
    rw [referencesInElements, hr.untouched, if_neg List.not_mem_nil, referencesInElements, hs.untouched,
      if_neg List.not_mem_nil, referencesIn_referencesIn hr hs v, referencesInElements_referencesInElements hr hs es]
    rfl
termination_by structural es

end

variable (hr : r.Thorough) (hs : s.Thorough)

include hr hs

theorem value_value (v : Value) : s.value (r.value v) = (r.andThen s).value v := by
  rw [hr.value_eq, hs.value_eq, (thorough_andThen r s).value_eq, hr.referencesIn_referencesIn hs]

theorem element_element (e : String × Value) : s.element (r.element e) = (r.andThen s).element e := by
  rw [hr.element_eq, hs.element_eq, (thorough_andThen r s).element_eq, hr.referencesIn_referencesIn hs]

/-! ## Code -/

theorem callSite_callSite (c : CallSite) : s.callSite (r.callSite c) = (r.andThen s).callSite c := by
  simp only [callSite, handle_handle, proto_proto, List.map_map, Function.comp_def, hr.value_value hs]

theorem reference_reference (reference : Reference) :
    s.reference (r.reference reference) = (r.andThen s).reference reference := by
  cases reference with
  | proto p => exact congrArg Reference.proto (proto_proto r s p)
  | handle h => exact congrArg Reference.handle (handle_handle r s h)
  | callSite c => exact congrArg Reference.callSite (hr.callSite_callSite hs c)
  | _ => rfl

theorem tryBlock_tryBlock (t : TryBlock) : s.tryBlock (r.tryBlock t) = (r.andThen s).tryBlock t := by
  have hhandler (h : Handler) : s.handler (r.handler h) = (r.andThen s).handler h := by
    simp only [handler, hr.apply_eq, hs.apply_eq, (thorough_andThen r s).apply_eq, Option.map_map]
    rfl
  simp only [tryBlock, hr.apply_eq, hs.apply_eq, (thorough_andThen r s).apply_eq, List.map_map, Function.comp_def,
    hhandler]

theorem debugItem_debugItem (item : DebugItem) : s.debugItem (r.debugItem item) = (r.andThen s).debugItem item := by
  have hevent (event : DebugEvent) : s.debugEvent (r.debugEvent event) = (r.andThen s).debugEvent event := by
    cases event with
    | startLocal register name type signature => simp only [debugEvent, Option.map_map]; rfl
    | _ => rfl
  simp only [debugItem, hr.apply_eq, hs.apply_eq, (thorough_andThen r s).apply_eq, hevent]

theorem renamed_code (c : Code) : (c.renamed r).renamed s = c.renamed (r.andThen s) := by
  simp only [Code.renamed, List.map_map, Function.comp_def, Instruction.map_map, hr.reference_reference hs,
    hr.tryBlock_tryBlock hs, hr.debugItem_debugItem hs]

/-! ## Annotations and members -/

theorem renamed_annotation (a : AnnotationItem) : (a.renamed r).renamed s = a.renamed (r.andThen s) := by
  have helements : Elements.sorted ((Elements.sorted (a.elements.map r.element)).map s.element) =
      Elements.sorted (a.elements.map (r.andThen s).element) := by
    rw [← hs.sorted_map_element, AnnotationItem.sorted_sorted, List.map_map]
    exact congrArg Elements.sorted (List.map_congr_left fun e _ => hr.element_element hs e)
  exact congrArg (AnnotationItem.mk a.visibility (s.type (r.type a.type))) helements

theorem renamed_annotations (annotations : List AnnotationItem) :
    (annotations.map (AnnotationItem.renamed r)).map (AnnotationItem.renamed s) =
      annotations.map (AnnotationItem.renamed (r.andThen s)) := by
  rw [List.map_map]
  exact List.map_congr_left fun a _ => hr.renamed_annotation hs a

theorem renamed_field (f : FieldDef) : (f.renamed r).renamed s = f.renamed (r.andThen s) := by
  have hvalue : (f.value.map r.value).map s.value = f.value.map (r.andThen s).value := by
    rw [Option.map_map]
    exact congrArg (f.value.map ·) (funext fun v => hr.value_value hs v)
  simp only [FieldDef.renamed, hr.renamed_annotations hs, hvalue]
  rfl

theorem renamed_parameters {types : List String} {parameters : List Parameter}
    (hcount : types.length = parameters.length) (types' : List String) :
    ((((parameters.zip types).map fun (p, type) => p.renamed r type).zip types').map fun (p, type) =>
      p.renamed s type) = (parameters.zip types').map fun (p, type) => p.renamed (r.andThen s) type := by
  refine List.ext_getElem (by simp [hcount]) fun i hi hi' => ?_
  simp only [List.getElem_map, List.getElem_zip, Parameter.renamed, hr.renamed_annotations hs]

theorem renamed_method (hcount : r.KeepsParameterCounts) (m : MethodDef) :
    (m.renamed r).renamed s = m.renamed (r.andThen s) := by
  have hparameters := hr.renamed_parameters hs ((hcount m.sig).trans (List.length_map _))
    (s.method (r.method m.sig)).parameters
  have hcode : (m.code.map (Code.renamed r)).map (Code.renamed s) = m.code.map (Code.renamed (r.andThen s)) := by
    rw [Option.map_map]
    exact congrArg (m.code.map ·) (funext fun c => hr.renamed_code hs c)
  rw [MethodDef.renamed, hcount.sig_renamed]
  simp only [MethodDef.renamed, hr.renamed_annotations hs, hparameters, hcode]
  rfl

/-- Renaming the content of a file twice is to rename it once. -/
theorem renamed_file (hcount : r.KeepsParameterCounts) (d : DexFile) :
    (d.renamed r).renamed s = d.renamed (r.andThen s) := by
  have hclass (c : ClassDef) : (c.renamed r).renamed s = c.renamed (r.andThen s) := by
    simp only [ClassDef.renamed, List.map_map, Option.map_map, Function.comp_def, hr.renamed_annotation hs,
      hr.renamed_field hs, hr.renamed_method hs hcount]
    rfl
  simp only [DexFile.renamed, List.map_map, Function.comp_def, hclass]

end Thorough

end Renaming

end Dalvik
