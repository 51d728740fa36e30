import Dalvik.Proofs.Class.Limits

/-!
# What is read back of the members of classes

Where a file has been copied as a whole, the copy of each class has the members that the
file keeps of it, in the same lists and places, with the flags, the initial values and the
restrictions that the file keeps (`Blueprint.Opens.returned_of_toDexFile`). This asks
nothing of the members: even where they name another class as theirs, or have one
signature, only what is found through a signature can go to the wrong member.
-/

namespace Dalvik

/-! ## Copies of members -/

/-- A field of a class of some type is given back as it is, up to its annotations. -/
def FieldDef.Returned (type : String) (f copy : FieldDef) : Prop :=
  ∃ annotations, copy = { f with definingClass := type, annotations }

/-- A method of a class of some type is given back as it is, up to what annotates it and its
parameters, the names of these, and its body. -/
def MethodDef.Returned (type : String) (m copy : MethodDef) : Prop :=
  ∃ parameters annotations code, parameters.map (·.type) = m.parameterTypes ∧
    copy = { m with definingClass := type, parameters, annotations, code }

/-- A class is given back with its members in the same lists and places. -/
structure ClassDef.Returned (c copy : ClassDef) : Prop where
  type : copy.type = c.type
  staticFields : List.Forall₂ (FieldDef.Returned c.type) c.staticFields copy.staticFields
  instanceFields : List.Forall₂ (FieldDef.Returned c.type) c.instanceFields copy.instanceFields
  directMethods : List.Forall₂ (MethodDef.Returned c.type) c.directMethods copy.directMethods
  virtualMethods : List.Forall₂ (MethodDef.Returned c.type) c.virtualMethods copy.virtualMethods

/-- What a field that has been copied says of itself. -/
theorem StoredField.returned_of_toField {stored : StoredField} {offset : Nat} {id : FieldId} {f copy : FieldDef}
    {type : String} (hoffset : stored.image.fieldIdOffset stored.index = .ok offset)
    (hid : stored.image.readAt (Layout.read : Read FieldId) offset = .ok id)
    (hclass : stored.definingClass = .ok type) (hname : stored.image.string id.name = .ok f.name)
    (htype : stored.image.type (UInt32.ofNat id.type.toNat) = .ok f.type) (hflags : stored.flags = f.flags)
    (hvalue : stored.value = .ok f.value) (hhidden : stored.hidden = HiddenApi.reread f.hidden)
    (hkept : f.hidden.map HiddenApi.kept = f.hidden) (hcopy : stored.view.toField = .ok copy) : f.Returned type copy := by
  obtain ⟨_, hclass', hcopy⟩ := Result.bind_eq_ok hcopy
  obtain ⟨_, hname', hcopy⟩ := Result.bind_eq_ok hcopy
  obtain ⟨_, htype', hcopy⟩ := Result.bind_eq_ok hcopy
  obtain ⟨_, hvalue', hcopy⟩ := Result.bind_eq_ok hcopy
  obtain ⟨annotations, -, hcopy⟩ := Result.bind_eq_ok hcopy
  obtain ⟨_, hhidden', hcopy⟩ := Result.bind_eq_ok hcopy
  have hread : stored.id = .ok id := by rw [StoredField.id, hoffset, Result.ok_bind, hid]
  have hname : stored.name = .ok f.name := by rw [StoredField.name, hread, Result.ok_bind, hname]
  have htype : stored.type = .ok f.type := by rw [StoredField.type, hread, Result.ok_bind, htype]
  cases hclass.symm.trans hclass'
  cases hname.symm.trans hname'
  cases htype.symm.trans htype'
  cases hvalue.symm.trans hvalue'
  obtain ⟨-, rfl⟩ := HiddenApi.eq_of_reread (hhidden.symm.trans hhidden')
  cases hcopy
  exact ⟨annotations, by rw [hkept, ← hflags]; rfl⟩

/-- The types of the parameters that are read are those of the prototype. -/
theorem StoredMethod.types_of_parameters {stored : StoredMethod} {types : List String}
    (htypes : stored.parameterTypes = .ok types) {parameters : List Parameter}
    (h : stored.parameters = .ok parameters) : parameters.map (·.type) = types := by
  rw [StoredMethod.parameters, htypes, Result.ok_bind] at h
  split at h
  · cases h
    exact (List.isEmpty_iff.mp ‹_›).symm
  · obtain ⟨code, -, h⟩ := Result.bind_eq_ok h
    split at h
    all_goals
      obtain ⟨names, -, h⟩ := Result.bind_eq_ok h
      obtain ⟨annotations, -, h⟩ := Result.bind_eq_ok h
      cases h
      refine List.ext_getElem? fun i => ?_
      rw [List.getElem?_map, List.getElem?_mapIdx, Option.map_map]
      exact Option.map_id'

/-- What a method that has been copied says of itself. -/
theorem StoredMethod.returned_of_toMethod {stored : StoredMethod} {m copy : MethodDef} {type : String}
    (hclass : stored.definingClass = .ok type) (hname : stored.name = .ok m.name)
    (htypes : stored.parameterTypes = .ok m.parameterTypes) (hreturn : stored.returnType = .ok m.returnType)
    (hflags : stored.flags = m.flags) (hhidden : stored.hidden = HiddenApi.reread m.hidden)
    (hkept : m.hidden.map HiddenApi.kept = m.hidden) (hcopy : stored.view.toMethod = .ok copy) : m.Returned type copy := by
  obtain ⟨_, hname', hcopy⟩ := Result.bind_eq_ok hcopy
  obtain ⟨code, -, hcopy⟩ := Result.bind_eq_ok (Result.within_eq_ok hcopy)
  obtain ⟨_, hclass', hcopy⟩ := Result.bind_eq_ok hcopy
  obtain ⟨parameters, hparameters, hcopy⟩ := Result.bind_eq_ok hcopy
  obtain ⟨_, hreturn', hcopy⟩ := Result.bind_eq_ok hcopy
  obtain ⟨annotations, -, hcopy⟩ := Result.bind_eq_ok hcopy
  obtain ⟨_, hhidden', hcopy⟩ := Result.bind_eq_ok hcopy
  cases hclass.symm.trans hclass'
  cases hname.symm.trans hname'
  cases hreturn.symm.trans hreturn'
  obtain ⟨-, rfl⟩ := HiddenApi.eq_of_reread (hhidden.symm.trans hhidden')
  cases hcopy
  exact ⟨parameters, annotations, code, StoredMethod.types_of_parameters htypes hparameters, by
    rw [hkept, ← hflags]; rfl⟩

namespace StoredClass

namespace Located

variable {s : StoredClass} {b : Blueprint} {t : Blueprint.DataTables} {c : ClassDef} (h : s.Located b t c)
  (hb : b.Complete)

include h hb

/-- A list that has been copied has been read, with the initial values and the restrictions
that the file keeps. -/
theorem exists_entries_of_clean {kind : MemberKind} (hclean : Result.Clean (s.entries kind)) :
    ∃ entries, s.entries kind = entries.map .ok ∧ List.Forall₂ (fun (row : Row) entry =>
      IsEntry s.image kind row.own row.value row.hidden entry) (b.rows t c.kept kind) entries :=
  h.exists_entries hb kind fun row hrow =>
    ⟨h.flags_lt_of_entries hb kind (fun _ => h.own_code_lt) hclean row hrow, h.own_code_lt hrow⟩

/-- A field that has been copied from its entry is given back. -/
theorem returned_of_field {kind : MemberKind} {f copy : FieldDef} (hhas : b.pools.Has (.field f.sig))
    {entry : MemberEntry} (hentry : IsEntry s.image kind (b.fieldRow f).own f.value f.hidden entry)
    (hkept : f.hidden.map HiddenApi.kept = f.hidden)
    {stored : StoredField} (hstored : s.field entry = .ok stored) (hcopy : stored.view.toField = .ok copy) :
    f.Returned c.type copy := by
  obtain ⟨place, -, hstored⟩ := Result.bind_eq_ok hstored
  have hstored := Except.ok.inj hstored
  have himage : stored.image = s.image := hstored ▸ rfl
  have hindex : stored.index = b.pools.fields.indexOrNone f.sig := hstored ▸ hentry.index
  have hclass : stored.definingClass = .ok c.type := hstored ▸ h.type_eq hb
  have hflags : stored.flags = f.flags := hstored ▸ congrArg AccessFlags.mk hentry.flags
  have hvalue : stored.value = .ok f.value := hstored ▸ hentry.value
  have hhidden : stored.hidden = HiddenApi.reread f.hidden := hstored ▸ hentry.hidden
  obtain ⟨offset, id, hoffset, hid, -, hname, htype⟩ := h.opens.exists_fieldId hb.ranked hb.closed hhas
  rw [← himage] at hoffset hid hname htype
  exact StoredField.returned_of_toField (hindex ▸ hoffset) hid hclass hname htype hflags hvalue hhidden hkept hcopy

/-- A method that has been copied from its entry is given back. -/
theorem returned_of_method {kind : MemberKind} {m copy : MethodDef} (hhas : b.pools.Has (.method m.sig))
    {entry : MemberEntry} {value : Option Value}
    (hentry : IsEntry s.image kind (b.methodRow t m).own value m.hidden entry)
    (hkept : m.hidden.map HiddenApi.kept = m.hidden)
    {stored : StoredMethod} (hstored : s.method entry = .ok stored) (hcopy : stored.view.toMethod = .ok copy) :
    m.Returned c.type copy := by
  obtain ⟨place, -, hstored⟩ := Result.bind_eq_ok hstored
  obtain ⟨parametersPlace, -, hstored⟩ := Result.bind_eq_ok hstored
  have hstored := Except.ok.inj hstored
  have himage : stored.image = s.image := hstored ▸ rfl
  have hindex : stored.index = b.pools.methods.indexOrNone m.sig := hstored ▸ hentry.index
  have hclass : stored.definingClass = .ok c.type := hstored ▸ h.type_eq hb
  have hflags : stored.flags = m.flags := hstored ▸ congrArg AccessFlags.mk hentry.flags
  have hhidden : stored.hidden = HiddenApi.reread m.hidden := hstored ▸ hentry.hidden
  obtain ⟨hname, htypes, hreturn⟩ := h.opens.storedMethod_eq hb hhas himage hindex
  exact StoredMethod.returned_of_toMethod hclass hname htypes hreturn hflags hhidden hkept hcopy

/-- The fields of a list are given back. -/
theorem returned_of_fields {kind : MemberKind} {fields copies : List FieldDef}
    (hrows : b.rows t c.kept kind = fields.map b.fieldRow)
    (hfields : ∀ f ∈ fields, ∃ f' ∈ c.fields, f.sig = f'.sig)
    (hcopies : FieldView.collect ((s.fields kind).map fun f => f.map StoredField.view) = .ok copies) :
    List.Forall₂ (FieldDef.Returned c.type) fields copies := by
  obtain ⟨entries, hentries, hall⟩ := h.exists_entries_of_clean hb (clean_of_copies hcopies)
  rw [hrows, List.forall₂_map_left_iff] at hall
  rw [FieldView.collect, StoredClass.fields, hentries] at hcopies
  refine forall₂_imp_of_mem (forall₂_trans hall (forall₂_of_copies hcopies)) fun f hf copy _ hmade => ?_
  obtain ⟨entry, hentry, stored, hstored, hcopy⟩ := hmade
  obtain ⟨f', hf', hsig⟩ := hfields f hf
  have hhas : b.pools.Has (.field f.sig) := hsig ▸ hb.has_field h.mem hf'
  have hkept := Blueprint.map_kept_hidden (hrows ▸ List.mem_map_of_mem hf)
  exact h.returned_of_field hb hhas hentry hkept hstored hcopy

/-- The methods of a list are given back. -/
theorem returned_of_methods {kind : MemberKind} {methods copies : List MethodDef}
    (hrows : b.rows t c.kept kind = methods.map (b.methodRow t))
    (hmethods : ∀ m ∈ methods, ∃ m' ∈ c.methods, m.sig = m'.sig)
    (hcopies : MethodView.collect ((s.methods kind).map fun m => m.map StoredMethod.view) = .ok copies) :
    List.Forall₂ (MethodDef.Returned c.type) methods copies := by
  obtain ⟨entries, hentries, hall⟩ := h.exists_entries_of_clean hb (clean_of_copies hcopies)
  rw [hrows, List.forall₂_map_left_iff] at hall
  rw [MethodView.collect, StoredClass.methods, hentries] at hcopies
  refine forall₂_imp_of_mem (forall₂_trans hall (forall₂_of_copies hcopies)) fun m hm copy _ hmade => ?_
  obtain ⟨entry, hentry, stored, hstored, hcopy⟩ := hmade
  obtain ⟨m', hm', hsig⟩ := hmethods m hm
  have hhas : b.pools.Has (.method m.sig) := hsig ▸ hb.has_method h.mem hm'
  have hkept := Blueprint.map_kept_hidden (hrows ▸ List.mem_map_of_mem hm)
  exact h.returned_of_method hb hhas hentry hkept hstored hcopy

/-- A class that has been copied is given back with the members that the file keeps. -/
theorem returned_of_toClass {copy : ClassDef} (hcopy : s.view.toClass = .ok copy) : c.kept.Returned copy := by
  obtain ⟨type, htype, hcopy⟩ := Result.bind_eq_ok hcopy
  obtain ⟨_, -, hcopy⟩ := Result.bind_eq_ok (Result.within_eq_ok hcopy)
  obtain ⟨_, -, hcopy⟩ := Result.bind_eq_ok hcopy
  obtain ⟨_, -, hcopy⟩ := Result.bind_eq_ok hcopy
  obtain ⟨_, -, hcopy⟩ := Result.bind_eq_ok hcopy
  obtain ⟨statics, hstatics, hcopy⟩ := Result.bind_eq_ok hcopy
  obtain ⟨instances, hinstances, hcopy⟩ := Result.bind_eq_ok hcopy
  obtain ⟨directs, hdirects, hcopy⟩ := Result.bind_eq_ok hcopy
  obtain ⟨virtuals, hvirtuals, hcopy⟩ := Result.bind_eq_ok hcopy
  cases (h.type_eq hb).symm.trans htype
  cases hcopy
  refine ⟨rfl, h.returned_of_fields hb rfl (fun f hf => ?_) hstatics,
    h.returned_of_fields hb rfl (fun f hf => ?_) hinstances, h.returned_of_methods hb rfl (fun m hm => ?_) hdirects,
    h.returned_of_methods hb rfl (fun m hm => ?_) hvirtuals⟩
  · obtain ⟨i, hi, rfl⟩ := List.mem_mapIdx.mp hf
    exact ⟨_, List.mem_append_left _ (List.getElem_mem hi), rfl⟩
  · obtain ⟨f', hf', rfl⟩ := List.mem_map.mp hf
    exact ⟨f', List.mem_append_right _ hf', rfl⟩
  · obtain ⟨m', hm', rfl⟩ := List.mem_map.mp hm
    exact ⟨m', List.mem_append_left _ hm', m'.sig_kept _⟩
  · obtain ⟨m', hm', rfl⟩ := List.mem_map.mp hm
    exact ⟨m', List.mem_append_right _ hm', m'.sig_kept _⟩

end Located

end StoredClass

/-! ## Files -/

/-- The classes of a file that has been copied are given back in their order, with the members
that the file keeps. -/
theorem Blueprint.Opens.returned_of_toDexFile {b : Blueprint} {t : DataTables} {image : Image} (h : b.Opens t image)
    (ht : b.Typed) {d : DexFile} (hcopy : image.toDexFile = .ok d) :
    List.Forall₂ (fun c copy => c.kept.Returned copy) b.classes d.classes := by
  obtain ⟨classes, hclasses, hcopy⟩ := Result.bind_eq_ok hcopy
  obtain ⟨markers, -, hcopy⟩ := Result.bind_eq_ok hcopy
  cases hcopy
  obtain ⟨hcount, hget⟩ := Result.get_of_collect hclasses
  have hlength : b.classes.length = classes.length := by
    rw [← List.length_map (b.classDefItem t.toDataOffsets), ← h.identified.classes.size_eq, ← h.classDefs, hcount]
    rfl
  refine List.forall₂_iff_get.mpr ⟨hlength, fun i hi hi' => ?_⟩
  obtain ⟨s, hat, rfl, hlocated⟩ := h.exists_located ht (List.getElem?_eq_getElem hi)
  have hclass : (StoredClass.at? s.image (UInt32.ofNat i)).map StoredClass.view >>= ClassView.toClass = .ok classes[i] :=
    hget i _ (List.getElem?_eq_getElem hi')
  rw [hat] at hclass
  exact hlocated.returned_of_toClass ht.toComplete hclass

end Dalvik
