import Dalvik.Proofs.Assembly.Additions
import Dalvik.Proofs.Assembly.Legibility
import Dalvik.Proofs.Class.Returned
import Dalvik.Proofs.Class.Stable

/-!
# What members keep on their way through a file

A class that was added to an assembly comes back from the file that was written, if this can
be read. Its static fields then start with the values that they started with, whether these
are given or not (`Assembly.values_returned`). The restrictions of its members stay
with their members, where any of them is restricted
(`Assembly.restrictions_returned`).
-/

namespace Dalvik

/-- What a field is called in its class. -/
def FieldDef.title (f : FieldDef) : String × String :=
  (f.name, f.type)

/-- What a method is called in its class. -/
def MethodDef.title (m : MethodDef) : String × List String × String :=
  (m.name, m.parameterTypes, m.returnType)

/-! ## Initial values -/

namespace ClassDef

/-- The first `n` static fields are those up to the last that does not start with a
default. -/
structure ValuesEnd (c : ClassDef) (n : Nat) : Prop where
  le_length : n ≤ c.staticFields.length
  default_from : ∀ k f, c.staticFields[k]? = some f → n ≤ k → f.initialValue.isDefault = true
  last : ∀ k f, c.staticFields[k]? = some f → k + 1 = n → f.initialValue.isDefault = false

/-- A class is given back with the values that its static fields start with: up to the last
that is no default they are given, and behind it they are left out. -/
structure ValuesReturned (c copy : ClassDef) : Prop where
  type : copy.type = c.type
  staticFields : copy.staticFields.map FieldDef.title = c.staticFields.map FieldDef.title
  instanceFields : copy.instanceFields.map FieldDef.title = c.instanceFields.map FieldDef.title
  values : ∃ n, c.ValuesEnd n ∧ copy.staticFields.map (·.value) =
    c.staticFields.mapIdx fun k f => if k < n then some f.initialValue.arranged else none
  instanceValues : ∀ f ∈ copy.instanceFields, f.value = none
  /-- Given or not, each value is the same, if the defaults that were given are those of the
  types. -/
  initialValues : (∀ f ∈ c.staticFields, ∀ v ∈ f.value, v.isDefault = true → v = Value.defaultFor f.type) →
    copy.staticFields.map FieldDef.initialValue = c.staticFields.map fun f => f.initialValue.arranged

/-- The values that a file keeps are those up to the last that is no default. -/
theorem valuesEnd (c : ClassDef) : c.ValuesEnd c.staticValues.length := by
  have hsplit : c.staticValues ++ (c.staticFields.map FieldDef.initialValue).rtakeWhile Value.isDefault =
      c.staticFields.map FieldDef.initialValue := List.rdropWhile_append_rtakeWhile
  have hget {k : Nat} {f : FieldDef} (hf : c.staticFields[k]? = some f) :
      (c.staticValues ++ (c.staticFields.map FieldDef.initialValue).rtakeWhile Value.isDefault)[k]? =
        some f.initialValue := by
    rw [hsplit, List.getElem?_map, hf, Option.map_some]
  refine ⟨c.length_staticValues_le, fun k f hf hle => ?_, fun k f hf hlast => ?_⟩
  · have hbehind := hget hf
    rw [List.getElem?_append_right hle] at hbehind
    exact List.mem_rtakeWhile_imp (List.mem_of_getElem? hbehind)
  · have hkept := hget hf
    have hne : c.staticValues ≠ [] := List.length_pos_iff.mp (by omega)
    rw [List.getElem?_append_left (by omega)] at hkept
    have hget : c.staticValues.getLast hne = f.initialValue := by
      rw [List.getLast_eq_getElem]
      refine Option.some.inj ((List.getElem?_eq_getElem _).symm.trans ?_)
      rw [← hlast, Nat.add_sub_cancel, hkept]
    exact hget ▸ Bool.eq_false_iff.mpr (List.rdropWhile_last_not Value.isDefault _ hne)

/-- Whether a file gives it or not, a static field starts with the same value, if a default
that was given is that of the type. -/
theorem initialValue_kept (c : ClassDef) {k : Nat} {f : FieldDef} (hf : c.staticFields[k]? = some f)
    (hdefault : ∀ v ∈ f.value, v.isDefault = true → v = Value.defaultFor f.type) (hidden : Option HiddenApi) :
    (f.kept (c.keptValue k) hidden).initialValue = f.initialValue.arranged := by
  rw [FieldDef.initialValue, FieldDef.kept, c.keptValue_eq_ite hf]
  split
  · rfl
  · have hinitial : f.initialValue = Value.defaultFor f.type := by
      have hvalue := c.valuesEnd.default_from k f hf (Nat.not_lt.mp ‹_›)
      rw [FieldDef.initialValue] at hvalue ⊢
      cases hgiven : f.value with
      | none => rfl
      | some v =>
        rw [hgiven, Option.getD_some] at hvalue
        exact hdefault v hgiven hvalue
    rw [hinitial, Value.arranged_defaultFor]
    rfl

end ClassDef

/-! ## Restrictions -/

/-- A class is given back with the restrictions of its members: with none if no member is
restricted, and otherwise with those of each member, if these name no other domains than
there are. A member without any then is not restricted at all, and has no domains. -/
structure ClassDef.RestrictionsReturned (c copy : ClassDef) : Prop where
  type : copy.type = c.type
  staticFields : copy.staticFields.map FieldDef.title = c.staticFields.map FieldDef.title
  instanceFields : copy.instanceFields.map FieldDef.title = c.instanceFields.map FieldDef.title
  directMethods : copy.directMethods.map MethodDef.title = c.directMethods.map MethodDef.title
  virtualMethods : copy.virtualMethods.map MethodDef.title = c.virtualMethods.map MethodDef.title
  none : (∀ r ∈ c.restrictions, r = none) → ∀ r ∈ copy.restrictions, r = none
  own : (∃ r ∈ c.restrictions, r ≠ Option.none) → (∀ r ∈ c.restrictions, ∀ h ∈ r, h.Known) →
    copy.restrictions = c.restrictions.map fun r => some (r.getD .unrestricted)

/-! ## Classes that are given back -/

namespace ClassDef.Returned

variable {c copy : ClassDef} (h : c.kept.Returned copy)

/-- What a field keeps on its way through a file is the same all along a list. -/
theorem map_field {α : Type} {type : String} {fields copies : List FieldDef}
    (h : List.Forall₂ (FieldDef.Returned type) fields copies) (g : FieldDef → α)
    (hg : ∀ (f : FieldDef) type annotations, g { f with definingClass := type, annotations } = g f) :
    copies.map g = fields.map g := by
  induction h with
  | nil => rfl
  | cons hfirst _ ih =>
    obtain ⟨annotations, rfl⟩ := hfirst
    rw [List.map_cons, List.map_cons, hg, ih]

/-- What a method keeps on its way through a file is the same all along a list. -/
theorem map_method {α : Type} {type : String} {methods copies : List MethodDef}
    (h : List.Forall₂ (MethodDef.Returned type) methods copies) (g : MethodDef → α)
    (hg : ∀ m copy : MethodDef, m.Returned type copy → g copy = g m) : copies.map g = methods.map g := by
  induction h with
  | nil => rfl
  | cons hfirst _ ih => rw [List.map_cons, List.map_cons, hg _ _ hfirst, ih]

theorem title_method {type : String} {m copy : MethodDef} (h : m.Returned type copy) : copy.title = m.title := by
  obtain ⟨parameters, annotations, code, htypes, rfl⟩ := h
  rw [MethodDef.title, MethodDef.parameterTypes, htypes]
  rfl

theorem hidden_method {type : String} {m copy : MethodDef} (h : m.Returned type copy) : copy.hidden = m.hidden := by
  obtain ⟨parameters, annotations, code, -, rfl⟩ := h
  rfl

theorem title_kept (m : MethodDef) (hidden : Option HiddenApi) : (m.kept hidden).title = m.title := by
  simp [MethodDef.title, MethodDef.kept, MethodDef.parameterTypes, Parameter.kept]

include h

theorem restrictions_eq : copy.restrictions = c.restrictions.map c.keptHidden := by
  rw [← restrictions_kept, restrictions, restrictions, fields, methods, fields, methods]
  simp only [List.map_append]
  rw [map_field h.staticFields _ (fun _ _ _ => rfl), map_field h.instanceFields _ (fun _ _ _ => rfl),
    map_method h.directMethods _ (fun _ _ => hidden_method), map_method h.virtualMethods _ (fun _ _ => hidden_method)]

theorem restrictionsReturned : c.RestrictionsReturned copy where
  type := h.type
  staticFields := by
    rw [map_field h.staticFields _ (fun _ _ _ => rfl), c.map_staticFields_kept (g := FieldDef.title) fun _ _ => rfl]
  instanceFields := by
    rw [map_field h.instanceFields _ (fun _ _ _ => rfl), kept, List.map_map]
    rfl
  directMethods := by
    rw [map_method h.directMethods _ (fun _ _ => title_method), kept, List.map_map]
    exact List.map_congr_left fun m _ => title_kept m _
  virtualMethods := by
    rw [map_method h.virtualMethods _ (fun _ _ => title_method), kept, List.map_map]
    exact List.map_congr_left fun m _ => title_kept m _
  none hnone r hr := by
    have hfree : c.isRestricted = false := List.any_eq_false.mpr fun r hr => by
      rw [hnone r hr]
      exact Bool.false_ne_true
    rw [h.restrictions_eq] at hr
    obtain ⟨r', -, rfl⟩ := List.mem_map.mp hr
    rw [keptHidden, hfree, if_neg Bool.false_ne_true]
  own hsome hknown := by
    obtain ⟨r, hr, hne⟩ := hsome
    have hrestricted : c.isRestricted = true := List.any_eq_true.mpr ⟨r, hr, Option.isSome_iff_ne_none.mpr hne⟩
    rw [h.restrictions_eq]
    refine List.map_congr_left fun r hr => ?_
    have hkept : (r.getD .unrestricted).Known := by
      cases r with
      | none => exact (by decide : HiddenApi.unrestricted.Known)
      | some h => exact hknown _ hr h rfl
    rw [keptHidden, if_pos hrestricted, hkept.kept_eq]

theorem valuesReturned : c.ValuesReturned copy := by
  have hvalues : copy.staticFields.map (·.value) =
      c.staticFields.mapIdx fun k f => if k < c.staticValues.length then some f.initialValue.arranged else none := by
    rw [map_field h.staticFields _ (fun _ _ _ => rfl), kept]
    refine List.ext_getElem? fun i => ?_
    rw [List.getElem?_map, List.getElem?_mapIdx, List.getElem?_mapIdx, Option.map_map]
    cases hf : c.staticFields[i]? with
    | none => rfl
    | some f => exact congrArg some (c.keptValue_eq_ite hf)
  refine ⟨h.type, h.restrictionsReturned.staticFields, h.restrictionsReturned.instanceFields,
    ⟨_, c.valuesEnd, hvalues⟩, fun f hf => ?_, fun hdefaults => ?_⟩
  · obtain ⟨f', hf', annotations, rfl⟩ := exists_mem_left h.instanceFields hf
    obtain ⟨g, -, rfl⟩ := List.mem_map.mp hf'
    rfl
  · rw [map_field h.staticFields _ (fun _ _ _ => rfl), kept]
    refine List.ext_getElem? fun i => ?_
    rw [List.getElem?_map, List.getElem?_mapIdx, List.getElem?_map, Option.map_map]
    cases hf : c.staticFields[i]? with
    | none => rfl
    | some f => exact congrArg some (c.initialValue_kept hf (hdefaults f (List.mem_of_getElem? hf)) _)

end ClassDef.Returned

/-! ## Whole files -/

namespace Assembly

/-- The classes that a file is made of are those that have been added. -/
theorem mem_blueprint_history (opcodes : Opcodes) (calls : List Call) (c : ClassDef) :
    c ∈ (history opcodes calls).blueprint.classes ↔ ∃ added, Added opcodes calls added ∧ c = added.ordered :=
  ((ClassOrder.arrange_perm _).mem_iff.trans Array.mem_toList_iff).trans (mem_classes_history opcodes calls)

/-- The methods of a file name their classes if those of the classes that have been added do. -/
theorem definingClass_iff {opcodes : Opcodes} {calls : List Call} {a : Assembly} (ha : history opcodes calls = a) :
    (∀ c ∈ a.blueprint.classes, ∀ m ∈ c.methods, m.definingClass = c.type) ↔
      ∀ c, Added opcodes calls c → ∀ m ∈ c.methods, m.definingClass = c.type := by
  subst ha
  constructor
  · intro h c hc m hm
    exact h c.ordered ((mem_blueprint_history _ _ _).mpr ⟨c, hc, rfl⟩) m (c.perm_methods_ordered.mem_iff.mpr hm)
  · intro h c hc m hm
    obtain ⟨added, hadded, rfl⟩ := (mem_blueprint_history _ _ c).mp hc
    exact h added hadded m (added.perm_methods_ordered.mem_iff.mp hm)

/-- What an assembly is written from has all that its classes are made of. -/
theorem Sealed.typed {a : Assembly} (h : a.Sealed) : a.blueprint.Typed where
  ranked := h.ranked
  closed := h.closed
  has c hc e he := h.classes c (Array.mem_toList_iff.mp ((ClassOrder.arrange_perm _).mem_iff.mp hc)) e he
  types := ((ClassOrder.arrange_perm _).map _).nodup_iff.mpr h.distinct

/-- The classes of a file are those of the assembly that it was written from, one by one. -/
theorem Sealed.returned {a : Assembly} (h : a.Sealed) {bytes : Bytes} (hwritten : a.blueprint.write = .ok bytes)
    (hsize : bytes.size < extentBound) {image : Image} (himage : Image.ofBytes bytes = .ok image) {d : DexFile}
    (hread : image.toDexFile = .ok d) :
    List.Forall₂ (fun c copy => c.kept.Returned copy) a.blueprint.classes d.classes := by
  obtain ⟨t, image', himage', -, hopens⟩ := Blueprint.opens_write h.ranked hwritten hsize
  obtain rfl : image = image' := Except.ok.inj (himage.symm.trans himage')
  exact hopens.returned_of_toDexFile h.typed hread

end Assembly

/-! ## A class whose members are not alike -/

namespace DexFile

/-- An annotation without elements. -/
def plainItem : AnnotationItem :=
  ⟨.runtime, "LA;", []⟩

/-- A class with two static fields, of which the first is annotated, restricted and starts with a
value, and with a method whose parameter is annotated. -/
def annotatedClass : ClassDef where
  type := "LA;"
  flags := ⟨0x401⟩
  superclass := none
  interfaces := []
  sourceFile := none
  annotations := []
  staticFields := [{ definingClass := "LA;", name := "f", type := "I", flags := ⟨8⟩, value := some (.int 1)
                     annotations := [plainItem], hidden := some ⟨.blacklist, 0x10⟩ },
    { definingClass := "LA;", name := "g", type := "I", flags := ⟨8⟩ }]
  instanceFields := []
  directMethods := []
  virtualMethods := [{ definingClass := "LA;", name := "m", parameters := [{ type := "I", annotations := [plainItem] }]
                       returnType := "V", flags := ⟨0x401⟩ }]

/-- A file of this class. -/
def annotated : DexFile where
  opcodes := .standard
  classes := [annotatedClass]

theorem setOf_plain : AnnotationItem.setOf [plainItem] = [plainItem] := by
  simp [AnnotationItem.setOf, AnnotationItem.arranged, AnnotationItem.make, plainItem, Elements.sorted,
    List.eraseReps, List.eraseRepsBy, List.eraseRepsBy.loop]

theorem arranged_annotated : annotatedClass.arranged = annotatedClass := by
  simp [annotatedClass, ClassDef.arranged, FieldDef.arranged, MethodDef.arranged, AnnotationItem.arranged,
    AnnotationItem.make, plainItem, Elements.sorted]

theorem sorted_annotated : annotatedClass.Sorted :=
  ⟨by decide +kernel, by decide, by decide, by decide⟩

theorem ordered_annotated : annotatedClass.ordered = annotatedClass := by
  rw [sorted_annotated.ordered_eq]

theorem ofAnnotationSet_plain : Entry.ofAnnotationSet [plainItem] =
    [.string "LA;", .type "LA;", .annotationItem plainItem, .annotationSet [plainItem]] := by
  rw [Entry.ofAnnotationSet, setOf_plain]
  simp [Entry.ofAnnotationItem, AnnotationItem.arranged, AnnotationItem.make, Elements.sorted, plainItem,
    Entry.ofType, Entry.ofElements]

theorem entries_annotated : annotated.entries =
    [.string "LA;", .type "LA;", .array [.int 1],
      .string "LA;", .type "LA;", .string "f", .string "I", .type "I", .field ⟨"LA;", "f", "I"⟩,
      .string "LA;", .type "LA;", .annotationItem plainItem, .annotationSet [plainItem],
      .string "LA;", .type "LA;", .string "g", .string "I", .type "I", .field ⟨"LA;", "g", "I"⟩,
      .string "LA;", .type "LA;", .annotationItem plainItem, .annotationSet [plainItem],
      .string "LA;", .type "LA;", .string "m", .string "VI", .string "V", .type "V", .string "I", .type "I",
      .typeList ["I"], .proto ⟨["I"], "V"⟩, .method ⟨"LA;", "m", ["I"], "V"⟩] := by
  have hvalues : Entry.ofStaticValues annotatedClass.staticValues = [.array [.int 1]] := by decide +kernel
  have hmethod : Entry.ofMethod ⟨"LA;", "m", ["I"], "V"⟩ = [.string "LA;", .type "LA;", .string "m", .string "VI",
      .string "V", .type "V", .string "I", .type "I", .typeList ["I"], .proto ⟨["I"], "V"⟩,
      .method ⟨"LA;", "m", ["I"], "V"⟩] := by decide +kernel
  show ((Entry.ofType "LA;" ++ [] ++ [] ++ [] ++ [] ++ Entry.ofStaticValues annotatedClass.staticValues ++
    (Entry.ofField ⟨"LA;", "f", "I"⟩ ++ Entry.ofAnnotationSet [plainItem] ++
      (Entry.ofField ⟨"LA;", "g", "I"⟩ ++ [] ++ [])) ++
    (Entry.ofAnnotationSet [plainItem] ++ [] ++ [] ++ [] ++ Entry.ofMethod ⟨"LA;", "m", ["I"], "V"⟩ ++ [] ++ [])) ++
    []) ++ [] = _
  rw [hvalues, hmethod, ofAnnotationSet_plain]
  rfl

/-- What has this class and its entries is written. -/
theorem exists_write_annotated {b : Blueprint} (hb : b.Typed) (hclasses : b.classes = [annotatedClass])
    (hhas : ∀ e, b.pools.Has e ↔ e ∈ annotated.entries) : ∃ bytes, b.write = .ok bytes ∧ bytes.size < extentBound := by
  have hdistinct : annotatedClass.Distinct := ⟨by decide, by decide, by decide, by decide⟩
  have hs : b.Settled := ⟨hb, by simpa [hclasses] using hdistinct⟩
  have hd : b.Demanded annotated.entries := by
    refine Blueprint.demanded_of_length_le (fun e => (hhas e).mp) (entries_annotated ▸ by decide) ?_ ?_
    · simpa [hclasses] using sorted_annotated
    · rw [hclasses]
      simp [annotatedClass, ClassDef.methods]
  obtain ⟨bytes, hwrite, hle⟩ := hs.exists_write_le hd
  have hroom : Blueprint.fileRoom annotated.entries [annotatedClass] < extentBound := by
    rw [entries_annotated]
    decide +kernel
  exact ⟨bytes, hwrite, Nat.lt_of_le_of_lt hle (hclasses ▸ hroom)⟩

end DexFile

namespace Assembly

/-- The calls that add a class and finalize. -/
def callsFor (c : ClassDef) : List Call :=
  [.ask (.classDef c.view), .finalize]

/-- The class is added just as it is. -/
theorem added_annotated : Added .standard (callsFor DexFile.annotatedClass) DexFile.annotatedClass := by
  have hview : DexFile.annotatedClass.view.toClass = .ok DexFile.annotatedClass := by
    rw [ClassDef.toClass_view, DexFile.arranged_annotated]
  have hadded := ((gathered_empty .standard).on_addClass_ok_iff DexFile.annotatedClass.view).mpr
    ⟨_, hview, by simp [defines]⟩
  exact ⟨[], _, [.finalize], rfl, .ask hview hadded⟩

theorem exists_annotated : ∃ a bytes image d, history .standard (callsFor DexFile.annotatedClass) = a ∧
    a.blueprint.classes = [DexFile.annotatedClass] ∧ (write.on a).1 = .ok bytes ∧ bytes.size < extentBound ∧
    Image.ofBytes bytes = .ok image ∧ image.toDexFile = .ok d := by
  have hgathered := gathered_gather DexFile.annotated.opcodes DexFile.annotated.requests
  have htypes : (DexFile.annotated.classes.map (·.type)).Nodup := by decide
  have hadded : ∀ c ∈ DexFile.annotated.classes, c.arranged.ordered = c := fun c hc => by
    rw [List.mem_singleton.mp hc, DexFile.arranged_annotated, DexFile.ordered_annotated]
  have hhistory : history .standard (callsFor DexFile.annotatedClass) =
      (gather DexFile.annotated.opcodes DexFile.annotated.requests).finalized :=
    congrArg Prod.snd (on_finalize hgathered.growing)
  have hclasses : (gather DexFile.annotated.opcodes DexFile.annotated.requests).classes.toList =
      [DexFile.annotatedClass] := by
    rw [classes_gather _ (DexFile.annotated.addedTypes_requests ▸ htypes), DexFile.filterMap_class?]
    exact map_eq_self hadded
  have hsealed := hgathered.sealed_finalize.2
  obtain ⟨a, ha⟩ : ∃ a, (gather DexFile.annotated.opcodes DexFile.annotated.requests).finalized = a := ⟨_, rfl⟩
  have hopcodes : a.blueprint.opcodes = .standard := ha ▸ DexFile.annotated.opcodes_blueprint
  have hhas : ∀ e, a.blueprint.pools.Has e ↔ e ∈ DexFile.annotated.entries := ha ▸ DexFile.has_iff_of_added htypes hadded
  rw [ha] at hhistory hsealed
  replace hclasses : a.classes.toList = [DexFile.annotatedClass] := ha ▸ hclasses
  have harranged : a.blueprint.classes = [DexFile.annotatedClass] :=
    List.perm_singleton.mp (hclasses ▸ ClassOrder.arrange_perm a.classes.toList)
  obtain ⟨bytes, hwritten, hsize⟩ := DexFile.exists_write_annotated hsealed.typed harranged hhas
  obtain ⟨t, image, himage, -, hopens⟩ := Blueprint.opens_write hsealed.ranked hwritten hsize
  have hcovers : image.opcodes.Covers a.blueprint.opcodes :=
    Opcodes.covers_ofVersion (by rw [hopcodes]; decide) hopens.opcodes
  have hcode : ∀ m ∈ DexFile.annotatedClass.methods, m.code = none := by decide
  have hsmall : DexFile.annotatedClass.Small :=
    ⟨by decide, by decide, by decide, fun m hm code hc => by rw [hcode m hm] at hc; cases hc⟩
  have hsound : DexFile.annotatedClass.Sound := fun m hm code hc => by rw [hcode m hm] at hc; cases hc
  obtain ⟨d, hread⟩ := hopens.exists_toDexFile hsealed.typed hcovers (by simpa [harranged] using hsound)
    (by simpa [harranged] using hsmall)
  refine ⟨a, bytes, image, d, hhistory, harranged, ?_, hsize, himage, hread⟩
  rw [Assembly.on_write hsealed.ranked, hwritten]

/-- Whatever an assembly has been called for, the file that it is written as gives back the
classes that have been added with the values that their static fields start with. -/
theorem values_returned {opcodes : Opcodes} {calls : List Call} {a : Assembly} (ha : history opcodes calls = a)
    {bytes : Bytes} (hwrite : (write.on a).1 = .ok bytes) (hsize : bytes.size < extentBound) {image : Image}
    (himage : Image.ofBytes bytes = .ok image) {d : DexFile} (hread : image.toDexFile = .ok d) :
    (∀ c, c ∈ a.blueprint.classes ↔ ∃ added, Added opcodes calls added ∧ c = added.ordered) ∧
      List.Forall₂ ClassDef.ValuesReturned a.blueprint.classes d.classes := by
  obtain ⟨hsealed, hwritten⟩ := (ha ▸ reliable_history opcodes calls : a.Reliable).sealed_of_write hwrite
  exact ⟨ha ▸ mem_blueprint_history opcodes calls,
    (hsealed.returned hwritten hsize himage hread).imp fun _ _ h => h.valuesReturned⟩

/-- Of the two static fields the first keeps its value, and the second is left with the default
that it starts with. -/
theorem values_returned_annotated : ∃ a bytes image d copy, history .standard (callsFor DexFile.annotatedClass) = a ∧
    (write.on a).1 = .ok bytes ∧ bytes.size < extentBound ∧ Image.ofBytes bytes = .ok image ∧
    image.toDexFile = .ok d ∧ d.classes = [copy] ∧ DexFile.annotatedClass.ValuesReturned copy ∧
    copy.staticFields.map (·.value) = [some (.int 1), none] := by
  obtain ⟨a, bytes, image, d, ha, hclasses, hwrite, hsize, himage, hread⟩ := exists_annotated
  obtain ⟨-, hall⟩ := values_returned ha hwrite hsize himage hread
  rw [hclasses] at hall
  obtain ⟨copy, _, hcopy, hnil, hd⟩ := List.forall₂_cons_left_iff.mp hall
  cases hnil
  refine ⟨a, bytes, image, d, copy, ha, hwrite, hsize, himage, hread, hd, hcopy, ?_⟩
  obtain ⟨n, hn, hvalues⟩ := hcopy.values
  have hle : n ≤ 2 := hn.le_length
  have hfirst : n ≠ 0 := by
    rintro rfl
    exact absurd (hn.default_from 0 _ rfl (Nat.le_refl 0)) (by decide)
  have hsecond : n ≠ 2 := by
    rintro rfl
    exact absurd (hn.last 1 _ rfl rfl) (by decide)
  obtain rfl : n = 1 := by omega
  rw [hvalues]
  rfl

/-- Whatever an assembly has been called for, the file that it is written as gives back the
classes that have been added with the restrictions of their members. -/
theorem restrictions_returned {opcodes : Opcodes} {calls : List Call} {a : Assembly} (ha : history opcodes calls = a)
    {bytes : Bytes} (hwrite : (write.on a).1 = .ok bytes) (hsize : bytes.size < extentBound) {image : Image}
    (himage : Image.ofBytes bytes = .ok image) {d : DexFile} (hread : image.toDexFile = .ok d) :
    (∀ c, c ∈ a.blueprint.classes ↔ ∃ added, Added opcodes calls added ∧ c = added.ordered) ∧
      List.Forall₂ ClassDef.RestrictionsReturned a.blueprint.classes d.classes := by
  obtain ⟨hsealed, hwritten⟩ := (ha ▸ reliable_history opcodes calls : a.Reliable).sealed_of_write hwrite
  exact ⟨ha ▸ mem_blueprint_history opcodes calls,
    (hsealed.returned hwritten hsize himage hread).imp fun _ _ h => h.restrictionsReturned⟩

/-- One field is restricted, so that the other members come back as members without
restrictions. -/
theorem restrictions_returned_annotated : ∃ a bytes image d copy,
    history .standard (callsFor DexFile.annotatedClass) = a ∧ (write.on a).1 = .ok bytes ∧ bytes.size < extentBound ∧
    Image.ofBytes bytes = .ok image ∧ image.toDexFile = .ok d ∧ d.classes = [copy] ∧
    DexFile.annotatedClass.RestrictionsReturned copy ∧
    copy.restrictions = [some ⟨.blacklist, 0x10⟩, some .unrestricted, some .unrestricted] := by
  obtain ⟨a, bytes, image, d, ha, hclasses, hwrite, hsize, himage, hread⟩ := exists_annotated
  obtain ⟨-, hall⟩ := restrictions_returned ha hwrite hsize himage hread
  rw [hclasses] at hall
  obtain ⟨copy, _, hcopy, hnil, hd⟩ := List.forall₂_cons_left_iff.mp hall
  cases hnil
  exact ⟨a, bytes, image, d, copy, ha, hwrite, hsize, himage, hread, hd, hcopy,
    hcopy.own ⟨some ⟨.blacklist, 0x10⟩, by decide, by decide⟩ (by decide)⟩

end Assembly

end Dalvik
