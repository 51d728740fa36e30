import Dalvik.Proofs.Class.Methods
import Dalvik.Proofs.Class.Shown

/-!
# The classes of a file are copied as the file keeps them

`StoredClass.Shows.toClass_eq_kept`: the copy of a class that has been found in an image is
the class that the file keeps.
-/

namespace Dalvik

/-! ## Copies of what is at hand -/

theorem AnnotationItem.collect_viewAll (annotations : List AnnotationItem) :
    AnnotationView.collect (viewAll annotations) = .ok (annotations.map arranged) :=
  Result.collect_ofList_map fun _ _ => rfl

theorem FieldDef.collect_views (fields : List FieldDef) :
    FieldView.collect (fields.map fun f => .ok f.view) = .ok (fields.map arranged) := by
  rw [FieldView.collect, List.map_map]
  refine Result.collect_map_eq fun f _ => ?_
  show (AnnotationView.collect (AnnotationItem.viewAll f.annotations) >>= _) = _
  rw [AnnotationItem.collect_viewAll]
  rfl

theorem Code.toCode_view (c : Code) : c.view.toCode = .ok c := by
  rw [CodeView.toCode]
  dsimp only [view]
  rw [Result.collect_map_ok, Result.ok_bind, Result.ok_bind, Result.collect_map_ok]
  rfl

theorem MethodDef.collect_views (methods : List MethodDef) :
    MethodView.collect (methods.map fun m => .ok m.view) = .ok (methods.map arranged) := by
  rw [MethodView.collect, List.map_map]
  refine Result.collect_map_eq fun m _ => ?_
  have hcode : m.view.toCode? = .ok m.code := by
    rw [MethodView.toCode?]
    dsimp only [view]
    cases m.code with
    | none => rfl
    | some code =>
      show (code.view.toCode >>= _) = _
      rw [code.toCode_view]
      rfl
  show ((m.view.toCode? >>= fun code => AnnotationView.collect (AnnotationItem.viewAll m.annotations) >>= _ :
    Result MethodDef).within _) = _
  rw [hcode, Result.ok_bind, AnnotationItem.collect_viewAll]
  rfl

/-- The copy of a class is the class with its annotations arranged. -/
theorem ClassDef.toClass_view (c : ClassDef) : c.view.toClass = .ok c.arranged := by
  have htype : c.view.type = .ok c.type := rfl
  rw [ClassView.toClass, htype, Result.ok_bind, ClassView.toClassOf]
  dsimp only [view]
  rw [Result.ok_bind, Result.ok_bind, Result.ok_bind, AnnotationItem.collect_viewAll, Result.ok_bind,
    FieldDef.collect_views, Result.ok_bind, FieldDef.collect_views, Result.ok_bind, MethodDef.collect_views,
    Result.ok_bind, MethodDef.collect_views]
  rfl

/-! ## Copies of members -/

theorem StoredField.toField_eq {stored : StoredField} {id : FieldId} {offset : Nat} {f : FieldDef}
    (hoffset : stored.image.fieldIdOffset stored.index = .ok offset)
    (hid : stored.image.readAt (Layout.read : Read FieldId) offset = .ok id)
    (hclass : stored.definingClass = .ok f.definingClass) (hname : stored.image.string id.name = .ok f.name)
    (htype : stored.image.type (UInt32.ofNat id.type.toNat) = .ok f.type) (hflags : stored.flags = f.flags)
    (hvalue : stored.value = .ok f.value)
    (hannotations : AnnotationView.collect (stored.annotations.map StoredAnnotationItem.view) = .ok f.annotations)
    (hhidden : stored.hidden = .ok f.hidden) : stored.view.toField = .ok f := by
  have hread : stored.id = .ok id := by rw [StoredField.id, hoffset, Result.ok_bind, hid]
  rw [FieldView.toField]
  dsimp only [StoredField.view]
  rw [hclass, Result.ok_bind, StoredField.name, hread, Result.ok_bind, hname, Result.ok_bind, StoredField.type, hread,
    Result.ok_bind, htype, Result.ok_bind, hvalue, Result.ok_bind, hannotations, Result.ok_bind, hhidden, hflags]
  rfl

/-- What stands behind the offset of a body: the names of the parameters and the copy of
the body, if there is one. -/
inductive StoredMethod.BodyAt (image : Image) (offset : Nat) : List (Option String) → Option Code → Prop
  | none (h : offset = 0) : BodyAt image offset [] none
  | some {stored : StoredCode} {names : List (Option String)} {code : Code} (h : offset ≠ 0)
      (hat : StoredCode.at? image offset = .ok stored) (hnames : stored.parameterNames = .ok names)
      (hcopy : stored.view.toCode = .ok code) : BodyAt image offset names (some code)

/-- The parameters of a method of the given types, with what is read for each of them. -/
def StoredMethod.parametersOf (types : List String) (names : List (Option String))
    (lists : List (List AnnotationItem)) : List Parameter :=
  types.mapIdx fun i type => { type, name := names[i]?.join, annotations := lists[i]?.getD [] }

namespace StoredMethod

variable {stored : StoredMethod} {names : List (Option String)} {code? : Option Code}
  (hbody : BodyAt stored.image stored.codeOffset names code?)

include hbody

theorem parameters_eq {types : List String} (htypes : stored.parameterTypes = .ok types)
    {lists : List (List AnnotationItem)} (hlists : stored.parameterAnnotations = .ok lists) :
    stored.parameters = .ok (parametersOf types names lists) := by
  rw [parameters, htypes, Result.ok_bind]
  cases types with
  | nil => rfl
  | cons type types =>
    rw [List.isEmpty_cons, if_neg Bool.false_ne_true]
    cases hbody with
    | none h =>
      rw [code, if_pos h, hlists]
      rfl
    | some h hat hnames _ =>
      rw [code, if_neg h, hat, hlists]
      show StoredCode.parameterNames _ >>= _ = _
      rw [hnames]
      rfl

theorem toCode?_eq : stored.view.toCode? = .ok code? := by
  rw [MethodView.toCode?]
  dsimp only [view]
  cases hbody with
  | none h =>
    rw [code, if_pos h]
    rfl
  | some h hat _ hcopy =>
    rw [code, if_neg h, hat]
    show (StoredCode.view _).toCode >>= _ = _
    rw [hcopy]
    rfl

theorem toMethod_eq {definingClass name returnType : String} {types : List String} {annotations : List AnnotationItem}
    {lists : List (List AnnotationItem)} {hidden : Option HiddenApi}
    (hclass : stored.definingClass = .ok definingClass) (hname : stored.name = .ok name)
    (htypes : stored.parameterTypes = .ok types) (hlists : stored.parameterAnnotations = .ok lists)
    (hreturn : stored.returnType = .ok returnType)
    (hannotations : AnnotationView.collect (stored.annotations.map StoredAnnotationItem.view) = .ok annotations)
    (hhidden : stored.hidden = .ok hidden) : stored.view.toMethod = .ok
      { definingClass, name, parameters := parametersOf types names lists, returnType, flags := stored.flags
        annotations, hidden, code := code? } := by
  have hview : stored.view.name = .ok name := hname
  rw [MethodView.toMethod, hview, Result.ok_bind, MethodView.toMethodNamed, toCode?_eq hbody, Result.ok_bind]
  dsimp only [view]
  rw [hclass, Result.ok_bind, parameters_eq hbody htypes hlists, Result.ok_bind, hreturn, Result.ok_bind, hannotations,
    Result.ok_bind, hhidden]
  rfl

end StoredMethod

/-! ## Classes that have been located -/

namespace StoredClass.Located

open Members Read

variable {s : StoredClass} {b : Blueprint} {t : Blueprint.DataTables} {c : ClassDef} (h : s.Located b t c)
  (hb : b.Complete)

include h hb

theorem type_eq : s.type = .ok c.type := by
  rw [StoredClass.type, h.item]
  exact h.opens.type_eq hb.ranked hb.closed (hb.has_type h.mem)

/-- An entry of a field is copied as this field of the class, with the annotations that the
directory leads to. -/
theorem exists_field {kind : MemberKind} {f : FieldDef} (hf : f ∈ c.fields) {value : Option Value}
    {hidden : Option HiddenApi} {entry : MemberEntry} (hentry : IsEntry s.image kind (b.fieldRow f).own value hidden entry)
    (hhidden : HiddenApi.reread hidden = .ok hidden) {annotations : List AnnotationItem}
    (hhas : ∀ e ∈ Entry.ofAnnotationSet annotations, b.pools.Has e)
    (hoffset : s.directory.fieldOffset (b.pools.fields.indexOrNone f.sig) = .ok (setOffset t.sets annotations).toNat) :
    ∃ stored, s.field entry = .ok stored ∧ stored.view.toField = .ok
      { f with definingClass := c.type, value, annotations := AnnotationItem.kept annotations, hidden } := by
  have hindex : entry.index = b.pools.fields.indexOrNone f.sig := hentry.index
  obtain ⟨offset, id, hidOffset, hid, -, hname, htype⟩ :=
    h.opens.exists_fieldId hb.ranked hb.closed (hb.has_field h.mem hf)
  rw [← hindex] at hoffset hidOffset
  have hfield : s.field entry = .ok ⟨s.image, s.item.type, entry.index, ⟨entry.flags⟩, entry.valueOffset,
      (setOffset t.sets annotations).toNat, entry.hiddenFlags⟩ := by
    rw [StoredClass.field, hoffset]
    rfl
  refine ⟨_, hfield, StoredField.toField_eq hidOffset hid (h.type_eq hb) hname htype
    (congrArg AccessFlags.mk hentry.flags) hentry.value ?_ (hentry.hidden.trans hhidden)⟩
  exact h.opens.annotationSet_eq hb.ranked hb.closed hhas

/-- An entry of a method is copied as this method of the class, with the annotations that
the directory leads to and the body that the table leads to. -/
theorem exists_method {kind : MemberKind} (hkind : kind.isMethod = true) {m : MethodDef} (hm : m ∈ c.methods)
    {value : Option Value} {hidden : Option HiddenApi} {entry : MemberEntry}
    (hentry : IsEntry s.image kind (b.methodRow t m).own value hidden entry)
    (hhidden : HiddenApi.reread hidden = .ok hidden) {annotations : List AnnotationItem}
    (hhas : ∀ e ∈ Entry.ofAnnotationSet annotations, b.pools.Has e)
    (hoffset : s.directory.methodOffset (b.pools.methods.indexOrNone m.sig) = .ok (setOffset t.sets annotations).toNat)
    {parametersOffset : Nat} {lists : List (List AnnotationItem)}
    (hparameters : s.directory.parameterOffset (b.pools.methods.indexOrNone m.sig) = .ok parametersOffset)
    (hlists : s.image.ParameterLists parametersOffset lists)
    {names : List (Option String)} {code? : Option Code}
    (hbody : StoredMethod.BodyAt s.image (offsetIn t.code m.sig).toNat names code?) :
    ∃ stored, s.method entry = .ok stored ∧ stored.view.toMethod = .ok
      { m with
        definingClass := c.type, parameters := StoredMethod.parametersOf m.parameterTypes names lists
        annotations := AnnotationItem.kept annotations, hidden, code := code? } := by
  have hindex : entry.index = b.pools.methods.indexOrNone m.sig := hentry.index
  rw [← hindex] at hoffset hparameters
  have hmethod : s.method entry = .ok ⟨s.image, s.item.type, entry.index, ⟨entry.flags⟩, entry.codeOffset, entry.size,
      (setOffset t.sets annotations).toNat, parametersOffset, entry.hiddenFlags⟩ := by
    rw [StoredClass.method, hoffset, Result.ok_bind, hparameters]
    rfl
  have hcodeOffset : entry.codeOffset = (offsetIn t.code m.sig).toNat := by
    rw [hentry.codeOffset, if_pos hkind]
    rfl
  obtain ⟨stored, hstored⟩ : ∃ stored : StoredMethod, ⟨s.image, s.item.type, entry.index, ⟨entry.flags⟩,
    entry.codeOffset, entry.size, (setOffset t.sets annotations).toNat, parametersOffset, entry.hiddenFlags⟩ = stored :=
    ⟨_, rfl⟩
  rw [hstored] at hmethod
  obtain ⟨hname, htypes, hreturn⟩ := h.opens.storedMethod_eq hb (hb.has_method h.mem hm)
    (show stored.image = s.image from hstored ▸ rfl) (show stored.index = _ from hstored ▸ hindex)
  have hflags : stored.flags = m.flags := hstored ▸ congrArg AccessFlags.mk hentry.flags
  refine ⟨stored, hmethod, ?_⟩
  rw [← hflags]
  subst hstored
  exact StoredMethod.toMethod_eq (hcodeOffset ▸ hbody) (h.type_eq hb) hname htypes hlists hreturn
    (h.opens.annotationSet_eq hb.ranked hb.closed hhas) (hentry.hidden.trans hhidden)

omit h hb in
/-- What the class data say in a list is what they say of the members of the class. -/
theorem exists_member {kind : MemberKind} {row : Row} (hrow : row ∈ b.rows t c.kept kind) :
    (kind.isMethod = false ∧ ∃ f ∈ c.fields, row.own = (b.fieldRow f).own) ∨
      (kind.isMethod = true ∧ ∃ m ∈ c.methods, row.own = (b.methodRow t m).own) := by
  have hmem : row.own ∈ (b.rows t c kind).map Row.own := by
    rw [← Blueprint.map_own_rows_kept]
    exact List.mem_map_of_mem hrow
  obtain ⟨row', hrow', heq⟩ := List.mem_map.mp hmem
  rw [← heq]
  cases kind with
  | staticField =>
    obtain ⟨f, hf, rfl⟩ := List.mem_map.mp hrow'
    exact .inl ⟨rfl, f, List.mem_append_left _ hf, rfl⟩
  | instanceField =>
    obtain ⟨f, hf, rfl⟩ := List.mem_map.mp hrow'
    exact .inl ⟨rfl, f, List.mem_append_right _ hf, rfl⟩
  | directMethod =>
    obtain ⟨m, hm, rfl⟩ := List.mem_map.mp hrow'
    exact .inr ⟨rfl, m, List.mem_append_left _ hm, rfl⟩
  | virtualMethod =>
    obtain ⟨m, hm, rfl⟩ := List.mem_map.mp hrow'
    exact .inr ⟨rfl, m, List.mem_append_right _ hm, rfl⟩

omit hb in
theorem own_code_lt {kind : MemberKind} {row : Row} (hrow : row ∈ b.rows t c.kept kind) :
    row.own.code.toNat < extentBound := by
  rcases exists_member hrow with ⟨-, f, -, heq⟩ | ⟨-, m, -, heq⟩
  · rw [heq]
    exact show (0 : UInt32).toNat < extentBound by decide
  · rw [heq]
    exact h.opens.offsetIn_code_lt m.sig

omit hb in
/-- What the class data say of members is small if the flags are. -/
theorem own_small (hfields : ∀ f ∈ c.fields, f.flags.bits.toNat < extentBound)
    (hmethods : ∀ m ∈ c.methods, m.flags.bits.toNat < extentBound) {kind : MemberKind} :
    ∀ row ∈ b.rows t c.kept kind, row.own.Small := by
  refine fun row hrow => ⟨?_, h.own_code_lt hrow⟩
  rcases exists_member hrow with ⟨-, f, hf, heq⟩ | ⟨-, m, hm, heq⟩
  · exact heq ▸ hfields f hf
  · exact heq ▸ hmethods m hm

/-- The copy of a class is made of the copies of its members. -/
theorem toClass_eq {staticFields instanceFields : List FieldDef} {directMethods virtualMethods : List MethodDef}
    (hstatic : FieldView.collect ((s.fields .staticField).map fun f => f.map StoredField.view) = .ok staticFields)
    (hinstance : FieldView.collect ((s.fields .instanceField).map fun f => f.map StoredField.view) = .ok instanceFields)
    (hdirect : MethodView.collect ((s.methods .directMethod).map fun m => m.map StoredMethod.view) = .ok directMethods)
    (hvirtual : MethodView.collect ((s.methods .virtualMethod).map fun m => m.map StoredMethod.view) =
      .ok virtualMethods) :
    s.view.toClass = .ok
      { c with
        annotations := AnnotationItem.kept c.annotations, staticFields, instanceFields, directMethods
        virtualMethods } := by
  have hsuperclass : s.superclass = .ok c.superclass := by
    rw [StoredClass.superclass, h.item]
    exact h.opens.type?_eq hb.ranked hb.closed fun d hd => hb.has_superclass h.mem hd
  have hinterfaces : s.interfaces = .ok c.interfaces := by
    rw [StoredClass.interfaces, h.item]
    exact (h.opens.typeList_eq hb.ranked hb.closed (hb.has_interfaces h.mem)).1
  have hsourceFile : s.sourceFile = .ok c.sourceFile := by
    rw [StoredClass.sourceFile, h.item]
    exact h.opens.string?_eq hb.ranked fun f hf => hb.has_sourceFile h.mem hf
  have hannotations : AnnotationView.collect (s.annotations.map StoredAnnotationItem.view) =
      .ok (AnnotationItem.kept c.annotations) := by
    rw [StoredClass.annotations, h.directory_of.classOffset]
    exact h.opens.annotationSet_eq hb.ranked hb.closed fun e he => hb.has_annotations h.mem he
  have hflags : s.flags = c.flags := by
    rw [StoredClass.flags, h.item]
    rfl
  have htype : s.view.type = .ok c.type := h.type_eq hb
  rw [ClassView.toClass, htype, Result.ok_bind, ClassView.toClassOf]
  dsimp only [StoredClass.view]
  rw [hsuperclass, Result.ok_bind, hinterfaces, Result.ok_bind, hsourceFile, Result.ok_bind, hannotations,
    Result.ok_bind, hstatic, Result.ok_bind, hinstance, Result.ok_bind, hdirect, Result.ok_bind, hvirtual, hflags]
  rfl

end StoredClass.Located

/-! ## Classes whose members are told apart -/

namespace StoredClass.Shows

open Members Read

variable {s : StoredClass} {b : Blueprint} {t : Blueprint.DataTables} {c : ClassDef} (h : s.Shows b t c)
  (hs : b.Settled)

include h hs

/-- An entry of a field is copied as the field that the file keeps. -/
theorem exists_kept_field {kind : MemberKind} {f : FieldDef} (hf : f ∈ c.fields) {value : Option Value}
    {hidden : Option HiddenApi} {entry : MemberEntry} (hentry : IsEntry s.image kind (b.fieldRow f).own value hidden entry)
    (hhidden : HiddenApi.reread hidden = .ok hidden) :
    ∃ stored, s.field entry = .ok stored ∧ stored.view.toField = .ok (f.kept value hidden) := by
  rw [FieldDef.kept, (hs.distinct c h.mem).definingClass_of_field f hf]
  exact h.exists_field hs.toComplete hf hentry hhidden (fun e he => hs.has_fieldAnnotations h.mem hf he)
    (h.directory.fieldOffset f hf)

/-- An entry of a method is copied as the method that the file keeps. -/
theorem exists_kept_method (hcovers : s.image.opcodes.Covers b.opcodes) {kind : MemberKind}
    (hkind : kind.isMethod = true) {m : MethodDef} (hm : m ∈ c.methods) (hreadable : ∀ code ∈ m.code, code.Readable)
    {value : Option Value} {hidden : Option HiddenApi} {entry : MemberEntry}
    (hentry : IsEntry s.image kind (b.methodRow t m).own value hidden entry)
    (hhidden : HiddenApi.reread hidden = .ok hidden) :
    ∃ stored, s.method entry = .ok stored ∧ stored.view.toMethod = .ok (m.kept hidden) := by
  obtain ⟨-, hlists⟩ := h.opens.parameterLists_found hs.toComplete h.mem hm fun cm hcm hsig =>
    congrArg Prod.snd (hs.eq_of_sig (Blueprint.mem_methods h.mem hm) hcm hsig)
  obtain ⟨names, hbody, hnames⟩ : ∃ names, StoredMethod.BodyAt s.image (offsetIn t.code m.sig).toNat names
      (m.code.map Code.kept) ∧ ∀ (i : Nat) (p : Parameter), m.parameters[i]? = some p →
        names[i]?.join = if m.code.isSome then p.name else none := by
    cases hcode : m.code with
    | none =>
      have hzero : (offsetIn t.code m.sig).toNat = 0 := by rw [h.opens.offsetIn_code_eq hs h.mem hm hcode]; rfl
      exact ⟨[], .none hzero, fun _ _ _ => rfl⟩
    | some code =>
      obtain ⟨hne, stored, names, hat, hcopy, hnames, hnameOf⟩ :=
        h.opens.exists_code hs h.mem hm hcovers hcode (hreadable code hcode)
      exact ⟨names, .some hne hat hnames hcopy, hnameOf⟩
  have hparameters : StoredMethod.parametersOf m.parameterTypes names m.keptLists =
      m.parameters.map (Parameter.kept m.code.isSome) := by
    refine List.ext_getElem? fun i => ?_
    rw [StoredMethod.parametersOf, List.getElem?_mapIdx, MethodDef.parameterTypes, List.getElem?_map, List.getElem?_map]
    cases hp : m.parameters[i]? with
    | none => rfl
    | some p =>
      rw [Option.map_some, Option.map_some, Option.map_some, hnames i p hp, MethodDef.keptLists_getD hp]
      rfl
  rw [MethodDef.kept, ← hparameters, (hs.distinct c h.mem).definingClass_of_method m hm]
  exact h.exists_method hs.toComplete hkind hm hentry hhidden (fun e he => hs.has_methodAnnotations h.mem hm he)
    (h.directory.methodOffset m hm) (h.directory.parameterOffset m hm) hlists hbody

/-! ### Lists of members -/

theorem collect_fields (hreadable : c.Readable) (kind : MemberKind) {fields : List FieldDef}
    (hrows : b.rows t c.kept kind = fields.map b.fieldRow)
    (hfields : ∀ f' ∈ fields, ∃ f ∈ c.fields, f' = f.kept f'.value f'.hidden) :
    FieldView.collect ((s.fields kind).map fun f => f.map StoredField.view) = .ok fields := by
  obtain ⟨entries, hentries, hall⟩ := h.exists_entries hs.toComplete kind
    (h.own_small hreadable.fieldFlags hreadable.methodFlags)
  rw [hrows, List.forall₂_map_left_iff] at hall
  rw [FieldView.collect, StoredClass.fields, hentries, List.map_map, List.map_map, List.map_map]
  refine Result.collect_map (forall₂_imp_of_mem hall.flip fun entry _ f' hf' hentry => ?_)
  obtain ⟨f, hf, heq⟩ := hfields f' hf'
  have hhidden := Blueprint.reread_hidden (hrows ▸ List.mem_map_of_mem hf') hreadable.restrictions
  rw [heq] at hentry ⊢
  obtain ⟨stored, hfield, hcopy⟩ := h.exists_kept_field hs hf hentry hhidden
  show ((s.field entry).map StoredField.view >>= _) = _
  rw [hfield]
  exact hcopy

theorem collect_methods (hcovers : s.image.opcodes.Covers b.opcodes) (hreadable : c.Readable) (kind : MemberKind)
    (hkind : kind.isMethod = true) {methods : List MethodDef}
    (hrows : b.rows t c.kept kind = methods.map (b.methodRow t))
    (hmethods : ∀ m' ∈ methods, ∃ m ∈ c.methods, m' = m.kept m'.hidden) :
    MethodView.collect ((s.methods kind).map fun m => m.map StoredMethod.view) = .ok methods := by
  obtain ⟨entries, hentries, hall⟩ := h.exists_entries hs.toComplete kind
    (h.own_small hreadable.fieldFlags hreadable.methodFlags)
  rw [hrows, List.forall₂_map_left_iff] at hall
  rw [MethodView.collect, StoredClass.methods, hentries, List.map_map, List.map_map, List.map_map]
  refine Result.collect_map (forall₂_imp_of_mem hall.flip fun entry _ m' hm' hentry => ?_)
  obtain ⟨m, hm, heq⟩ := hmethods m' hm'
  have hown : (b.methodRow t m').own = (b.methodRow t m).own := by
    rw [heq]
    simp only [Blueprint.methodRow, MethodDef.sig_kept]
    rfl
  have hentryOf : IsEntry s.image kind (b.methodRow t m).own none m'.hidden entry := hown ▸ hentry
  have hhidden := Blueprint.reread_hidden (hrows ▸ List.mem_map_of_mem hm') hreadable.restrictions
  obtain ⟨stored, hmethod, hcopy⟩ := h.exists_kept_method hs hcovers hkind hm (hreadable.code m hm) hentryOf hhidden
  show ((s.method entry).map StoredMethod.view >>= _) = _
  rw [hmethod, heq]
  exact hcopy

/-- The copy of a class is the class that the file keeps. -/
theorem toClass_eq_kept (hcovers : s.image.opcodes.Covers b.opcodes) (hreadable : c.Readable) :
    s.view.toClass = .ok c.kept := by
  have hstatic := h.collect_fields hs hreadable .staticField rfl fun f' hf' => by
    obtain ⟨i, hi, rfl⟩ := List.mem_mapIdx.mp hf'
    exact ⟨_, List.mem_append_left _ (List.getElem_mem hi), rfl⟩
  have hinstance := h.collect_fields hs hreadable .instanceField rfl fun f' hf' => by
    obtain ⟨f, hf, rfl⟩ := List.mem_map.mp hf'
    exact ⟨f, List.mem_append_right _ hf, rfl⟩
  have hdirect := h.collect_methods hs hcovers hreadable .directMethod rfl rfl fun m' hm' => by
    obtain ⟨m, hm, rfl⟩ := List.mem_map.mp hm'
    exact ⟨m, List.mem_append_left _ hm, rfl⟩
  have hvirtual := h.collect_methods hs hcovers hreadable .virtualMethod rfl rfl fun m' hm' => by
    obtain ⟨m, hm, rfl⟩ := List.mem_map.mp hm'
    exact ⟨m, List.mem_append_right _ hm, rfl⟩
  exact h.toClass_eq hs.toComplete hstatic hinstance hdirect hvirtual

end StoredClass.Shows

end Dalvik
