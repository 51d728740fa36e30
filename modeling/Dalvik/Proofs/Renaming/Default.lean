import Dalvik.Image.Class
import Dalvik.Proofs.Assembly.Entry
import Dalvik.Proofs.Renaming.Copies

/-!
# Renaming nothing

The renaming without any new names shows all parts as they are, except that a method takes
the types of its parameters from its signature and the annotations of the parameters are
put in order. So a file whose methods agree with themselves about their parameters
(`FileView.Typed`) has the same copy as before (`Renaming.toDexFile_default`). Files in an
image are such files (`Image.typed_view`).
-/

namespace Dalvik

/-! ## Parts that are shown as they are -/

namespace Renaming

theorem method_default (m : MethodSig) : ({} : Renaming).method m = m :=
  congrArg (MethodSig.mk _ _ · _) (List.map_id _)

theorem proto_default (p : Prototype) : ({} : Renaming).proto p = p :=
  congrArg (Prototype.mk · _) (List.map_id _)

theorem handle_default (h : MethodHandle) : ({} : Renaming).handle h = h := by
  obtain ⟨kind, member, hfits⟩ := h
  have hmember : ({} : Renaming).member member = member := by
    cases member with
    | field f => rfl
    | method m => exact congrArg HandleMember.method (method_default m)
  simp only [handle, hmember]

mutual

theorem referencesIn_default (v : Value) : ({} : Renaming).referencesIn v = v := by
  cases v with
  | method m => exact congrArg Value.method (method_default m)
  | proto p => exact congrArg Value.proto (proto_default p)
  | handle h => exact congrArg Value.handle (handle_default h)
  | array vs => exact congrArg Value.array (referencesInAll_default vs)
  | nested t es => exact congrArg (Value.nested t) (referencesInElements_default es)
  | _ => rfl
termination_by structural v

theorem referencesInAll_default (vs : List Value) : ({} : Renaming).referencesInAll vs = vs := by
  cases vs with
  | nil => rfl
  | cons v vs => exact congrArg₂ List.cons (referencesIn_default v) (referencesInAll_default vs)
termination_by structural vs

theorem referencesInElements_default (es : List (String × Value)) : ({} : Renaming).referencesInElements es = es := by
  cases es with
  | nil => rfl
  | cons e es =>
    obtain ⟨name, v⟩ := e
    exact congrArg₂ (fun v es => (name, v) :: es) (referencesIn_default v) (referencesInElements_default es)
termination_by structural es

end

theorem thorough_default : ({} : Renaming).Thorough := ⟨rfl, rfl⟩

theorem value_default : ({} : Renaming).value = id := by
  funext v
  rw [thorough_default.value_eq, referencesIn_default]
  rfl

theorem reference_default (reference : Reference) : ({} : Renaming).reference reference = reference := by
  cases reference with
  | method m => exact congrArg Reference.method (method_default m)
  | proto p => exact congrArg Reference.proto (proto_default p)
  | handle h => exact congrArg Reference.handle (handle_default h)
  | callSite c =>
    simp only [reference, callSite, handle_default, proto_default, value_default, List.map_id]
  | _ => rfl

theorem instruction_default : ({} : Renaming).instruction = id := by
  funext i
  rw [thorough_default.instruction_eq]
  exact Instruction.map_eq_self fun slot _ => reference_default slot.2

theorem tryBlock_default : ({} : Renaming).tryBlock = id := by
  have hhandler : ({} : Renaming).handler = id := by
    funext h
    rw [handler, thorough_default.apply_eq, Option.map_id]
    rfl
  funext t
  rw [tryBlock, thorough_default.apply_eq, hhandler, List.map_id]
  rfl

theorem debugItem_default : ({} : Renaming).debugItem = id := by
  funext item
  obtain ⟨address, event⟩ := item
  rw [debugItem, thorough_default.apply_eq]
  cases event with
  | startLocal register name type signature => simp only [debugEvent, Option.map_id]; rfl
  | _ => rfl

end Renaming

/-! ## Copies that are the same -/

namespace Renaming

theorem code_default (c : CodeView) : ({} : Renaming).code c = c := by
  have hinstructions : c.instructions.map (Except.map ({} : Renaming).instruction) = c.instructions := by
    rw [instruction_default]
    exact List.map_id'' Result.map_id _
  have htries : c.tries.map (List.map ({} : Renaming).tryBlock) = c.tries := by
    rw [tryBlock_default, Result.map_map_id]
  have hdebug : c.debug.map (Except.map ({} : Renaming).debugItem) = c.debug := by
    rw [debugItem_default]
    exact List.map_id'' Result.map_id _
  rw [code, thorough_default.apply_eq, hinstructions, htries, hdebug]

theorem annotationItem_default (a : AnnotationView) : ({} : Renaming).annotationItem a = a := by
  have helement : ({} : Renaming).element = id := by
    funext e
    rw [thorough_default.element_eq, referencesIn_default]
    rfl
  rw [annotationItem, thorough_default.apply_eq, helement, Result.map_id, Result.map_map_id]

theorem annotations_default (annotations : Items AnnotationView) :
    annotations.map ({} : Renaming).annotationItem = annotations := by
  rw [show ({} : Renaming).annotationItem = id from funext annotationItem_default]
  exact congrArg (Items.mk annotations.count) (funext fun i => Result.map_id _)

/-- A field that can be copied is shown as it is. -/
theorem fieldView_default {f : FieldView} {copy : FieldDef} (h : f.toField = .ok copy) :
    ({} : Renaming).fieldView f = f := by
  obtain ⟨definingClass, hclass, hrest⟩ := Result.bind_eq_ok h
  obtain ⟨name, hname, hrest⟩ := Result.bind_eq_ok hrest
  obtain ⟨type, htype, -⟩ := Result.bind_eq_ok hrest
  have hsig : f.sig.map ({} : Renaming).field = .ok ⟨definingClass, name, type⟩ := by
    rw [FieldView.sig, hclass, Result.ok_bind, hname, Result.ok_bind, htype]
    rfl
  rw [fieldView, thorough_default.apply_eq, annotations_default, value_default, Option.map_id_fun, Result.map_id, hsig]
  show { f with definingClass := .ok definingClass, name := .ok name, type := .ok type } = f
  rw [← hclass, ← hname, ← htype]

end Renaming

/-- What a method says of its parameters fits its signature, and their annotations are in
order. -/
def MethodView.Typed (m : MethodView) : Prop :=
  ∀ parameters, m.parameters = .ok parameters →
    m.parameterTypes = .ok (parameters.map (·.type)) ∧ ∀ p ∈ parameters, ∀ a ∈ p.annotations, a.arranged = a

/-- The methods of a class fit their signatures. -/
def ClassView.Typed (c : ClassView) : Prop :=
  ∀ m, .ok m ∈ c.methods → m.Typed

/-- The methods of a file fit their signatures. -/
def FileView.Typed (file : FileView) : Prop :=
  ∀ i c, file.classes.get i = .ok c → c.Typed

namespace Renaming

theorem parameter_default {p : Parameter} (h : ∀ a ∈ p.annotations, a.arranged = a) :
    ({} : Renaming).parameter p p.type = .ok p := by
  have hannotation (a : AnnotationItem) (ha : a ∈ p.annotations) :
      (({} : Renaming).annotationItem a.view).toAnnotationItem = .ok a := by
    rw [annotationItem_default]
    exact congrArg Except.ok (h a ha)
  rw [parameter, Result.mapM_ok hannotation, List.map_id']
  rfl

theorem parameters_default {parameters : List Parameter} (h : ∀ p ∈ parameters, ∀ a ∈ p.annotations, a.arranged = a) :
    (parameters.zip (parameters.map (·.type))).mapM (fun (p, type) => ({} : Renaming).parameter p type) =
      .ok parameters := by
  rw [← List.map_prod_left_eq_zip]
  refine Result.mapM_of_forall₂ (List.forall₂_map_left_iff.mpr ?_)
  exact List.forall₂_same.mpr fun p hp => parameter_default (h p hp)

/-- A method that can be copied is shown as it is. -/
theorem methodView_default {m : MethodView} (hm : m.Typed) {copy : MethodDef} (h : m.toMethod = .ok copy) :
    ({} : Renaming).methodView m = m := by
  obtain ⟨name, hname, hnamed⟩ := Result.bind_eq_ok h
  obtain ⟨code, hcode, hrest⟩ := Result.bind_eq_ok (Result.within_eq_ok hnamed)
  obtain ⟨definingClass, hclass, hrest⟩ := Result.bind_eq_ok hrest
  obtain ⟨parameters, hparameters, hrest⟩ := Result.bind_eq_ok hrest
  obtain ⟨returnType, hreturn, -⟩ := Result.bind_eq_ok hrest
  obtain ⟨htypes, hannotations⟩ := hm parameters hparameters
  have hsig : m.sig.map ({} : Renaming).method = .ok ⟨definingClass, name, parameters.map (·.type), returnType⟩ := by
    rw [MethodView.sig, hclass, Result.ok_bind, hname, Result.ok_bind, htypes, Result.ok_bind, hreturn]
    exact congrArg Except.ok (method_default _)
  have hzipped : (m.parameters >>= fun ps =>
      (ps.zip (parameters.map (·.type))).mapM fun (p, type) => ({} : Renaming).parameter p type) = m.parameters := by
    rw [hparameters]
    exact parameters_default hannotations
  have hcodes : m.code.map (Option.map ({} : Renaming).code) = m.code := by
    rw [show ({} : Renaming).code = id from funext code_default, Option.map_id_fun, Result.map_id]
  rw [methodView, thorough_default.apply_eq, annotations_default, hcodes, hsig]
  show { m with
    definingClass := .ok definingClass, name := .ok name, parameterTypes := .ok (parameters.map (·.type))
    parameters := m.parameters >>= fun ps =>
      (ps.zip (parameters.map (·.type))).mapM fun (p, type) => ({} : Renaming).parameter p type
    returnType := .ok returnType } = m
  rw [hzipped, ← hclass, ← hname, ← htypes, ← hreturn]

/-- Members that can be copied are shown as they are. -/
theorem members_default {α β : Type} {change : α → α} {copy : α → Result β} {members : List (Result α)}
    {copies : List β} (h : Result.collect (members.map fun m => m >>= copy) = .ok copies)
    (hsame : ∀ m, .ok m ∈ members → ∀ b, copy m = .ok b → change m = m) :
    members.map (Except.map change) = members := by
  refine map_eq_self fun r hr => ?_
  obtain ⟨b, hb⟩ := Result.clean_of_collect h _ (List.mem_map_of_mem hr)
  obtain ⟨m, rfl, hcopy⟩ := Result.bind_eq_ok hb
  exact congrArg Except.ok (hsame m hr b hcopy)

/-- A class that can be copied is shown as it is. -/
theorem classView_default {c : ClassView} (hc : c.Typed) {copy : ClassDef} (h : c.toClass = .ok copy) :
    ({} : Renaming).classView c = c := by
  obtain ⟨type, htype, hof⟩ := Result.bind_eq_ok h
  obtain ⟨superclass, hsuperclass, hrest⟩ := Result.bind_eq_ok (Result.within_eq_ok hof)
  obtain ⟨interfaces, hinterfaces, hrest⟩ := Result.bind_eq_ok hrest
  obtain ⟨sourceFile, hsourceFile, hrest⟩ := Result.bind_eq_ok hrest
  obtain ⟨annotations, hannotations, hrest⟩ := Result.bind_eq_ok hrest
  obtain ⟨staticFields, hstatic, hrest⟩ := Result.bind_eq_ok hrest
  obtain ⟨instanceFields, hinstance, hrest⟩ := Result.bind_eq_ok hrest
  obtain ⟨directMethods, hdirect, hrest⟩ := Result.bind_eq_ok hrest
  obtain ⟨virtualMethods, hvirtual, -⟩ := Result.bind_eq_ok hrest
  have hmethod (m : MethodView) (hm : .ok m ∈ c.methods) (b : MethodDef) (hcopy : m.toMethod = .ok b) :
      ({} : Renaming).methodView m = m := methodView_default (hc m hm) hcopy
  rw [classView, thorough_default.apply_eq, annotations_default,
    members_default hstatic fun _ _ _ => fieldView_default, members_default hinstance fun _ _ _ => fieldView_default,
    members_default hdirect fun m hm => hmethod m (List.mem_append_left _ hm),
    members_default hvirtual fun m hm => hmethod m (List.mem_append_right _ hm)]
  show { c with
    type := c.type.map id, superclass := c.superclass.map (Option.map id)
    interfaces := c.interfaces.map (List.map id) } = c
  rw [Result.map_id, Option.map_id_fun, Result.map_id, Result.map_map_id]

/-- A file has the same copy as before. -/
theorem toDexFile_default {file : FileView} (hfile : file.Typed) {d : DexFile} (h : file.toDexFile = .ok d) :
    (({} : Renaming).fileView file).toDexFile = .ok d := by
  obtain ⟨classes, hclasses, hrest⟩ := Result.bind_eq_ok h
  have hclasses' : ((file.classes.map ({} : Renaming).classView).andThen ClassView.toClass).collect = .ok classes := by
    refine Result.collectFrom_imp (fun i copy hi => ?_) hclasses
    obtain ⟨c, hc, hcopy⟩ := Result.bind_eq_ok hi
    show (file.classes.get i).map ({} : Renaming).classView >>= ClassView.toClass = .ok copy
    rw [hc, Except.map, Result.ok_bind, classView_default (hfile i c hc) hcopy, hcopy]
  rw [fileView, thorough_default.apply_eq, FileView.toDexFile, hclasses', Result.ok_bind]
  exact hrest

end Renaming

/-! ## Files in an image and at hand -/

theorem AnnotationItem.arranged_make (visibility : Visibility) (type : String) (elements : Elements) :
    (make visibility type elements).arranged = make visibility type elements :=
  congrArg (AnnotationItem.mk visibility type) (sorted_sorted elements)

/-- The annotations that are collected are in order. -/
theorem AnnotationView.arranged_of_collect {items : Items AnnotationView} {annotations : List AnnotationItem}
    (h : collect items = .ok annotations) : ∀ a ∈ annotations, a.arranged = a := by
  intro a ha
  obtain ⟨i, hi⟩ := Result.exists_get_of_mem_collectFrom h ha
  obtain ⟨view, -, hcopy⟩ := Result.bind_eq_ok hi
  obtain ⟨type, -, hcopy⟩ := Result.bind_eq_ok hcopy
  obtain ⟨elements, -, hcopy⟩ := Result.bind_eq_ok hcopy
  cases hcopy
  exact AnnotationItem.arranged_make ..

theorem StoredMethod.arranged_of_parameterAnnotations {m : StoredMethod} {lists : List (List AnnotationItem)}
    (h : m.parameterAnnotations = .ok lists) : ∀ annotations ∈ lists, ∀ a ∈ annotations, a.arranged = a := by
  intro annotations hannotations
  obtain ⟨offsets, -, hlists⟩ := Result.bind_eq_ok h
  obtain ⟨offset, -, hcollect⟩ := Result.exists_of_mem_mapM hlists hannotations
  exact AnnotationView.arranged_of_collect hcollect

/-- The parameters of a method in an image are made from the types in its signature. -/
theorem StoredMethod.typed_view (m : StoredMethod) : m.view.Typed := by
  intro parameters hparameters
  obtain ⟨types, htypes, hrest⟩ := Result.bind_eq_ok hparameters
  split at hrest
  · rename_i hempty
    cases hrest
    exact ⟨htypes.trans (congrArg Except.ok (List.isEmpty_iff.mp hempty)), nofun⟩
  · obtain ⟨code, -, hrest⟩ := Result.bind_eq_ok hrest
    obtain ⟨names, hrest⟩ : ∃ names : List (Option String), m.parameterAnnotations >>= (fun annotations =>
        pure (types.mapIdx fun i type =>
          { type, name := names[i]?.join, annotations := annotations[i]?.getD [] : Parameter })) = .ok parameters := by
      cases code with
      | none => exact ⟨[], hrest⟩
      | some code =>
        obtain ⟨names, -, hrest⟩ := Result.bind_eq_ok hrest
        exact ⟨names, hrest⟩
    obtain ⟨lists, hlists, hrest⟩ := Result.bind_eq_ok hrest
    cases hrest
    refine ⟨htypes.trans (congrArg Except.ok ?_), fun p hp a ha => ?_⟩
    · exact (List.ext_getElem (by simp) fun i hi hi' => by simp).symm
    · obtain ⟨i, hi, rfl⟩ := List.mem_mapIdx.mp hp
      have hannotations : a ∈ lists[i]?.getD [] := ha
      cases hlist : lists[i]? with
      | none =>
        rw [hlist] at hannotations
        cases hannotations
      | some annotations =>
        rw [hlist] at hannotations
        exact arranged_of_parameterAnnotations hlists annotations (List.mem_of_getElem? hlist) a hannotations

theorem Image.typed_view (image : Image) : image.view.Typed := by
  intro i c hc m hm
  obtain ⟨stored, -, rfl⟩ := Result.map_eq_ok hc
  obtain ⟨method, -, hmethod⟩ : ∃ method ∈ stored.methods .directMethod ++ stored.methods .virtualMethod,
      method.map StoredMethod.view = .ok m := by
    rw [← List.mem_map, List.map_append]
    exact hm
  obtain ⟨method, -, rfl⟩ := Result.map_eq_ok hmethod
  exact method.typed_view

end Dalvik
