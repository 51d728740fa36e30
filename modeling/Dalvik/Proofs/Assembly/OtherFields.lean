import Dalvik.Proofs.Assembly.Written

/-!
# Files that differ in their fields

In a file without classes, constants and method handles nothing points at a field. So the
section of the fields is all that depends on the fields themselves, and the rest of the file
on their number (`Blueprint.write_withFields`): files with different fields are different
(`Blueprint.not_agree_withFields`).
-/

namespace Dalvik

/-- A form is read as one thing only. -/
theorem Read.Yields.unique {α : Type} {step : Read α} {form : List UInt8} {a a' : α} (h : Yields step form a)
    (h' : Yields step form a') : a = a' := by
  have hform : Bytes.Holds form.toArray 0 form := ⟨[], [], by simp, rfl⟩
  exact Except.ok.inj (congrArg Prod.fst ((h _ _ hform).symm.trans (h' _ _ hform)))

/-- As many items of one size that are written alike are the same. -/
theorem Layout.eq_of_writeItems_eq {ι : Type} [Layout ι] {size : Nat}
    (hsize : ∀ item : ι, (Layout.write item).length = size)
    (hinj : ∀ item item' : ι, Layout.write item = Layout.write item' → item = item') {items items' : List ι}
    (hlength : items.length = items'.length) (h : Layout.writeItems items = Layout.writeItems items') :
    items = items' := by
  induction items generalizing items' with
  | nil => exact (List.eq_nil_of_length_eq_zero hlength.symm).symm
  | cons item items ih =>
    cases items' with
    | nil => cases hlength
    | cons item' items' =>
      obtain ⟨hitem, hrest⟩ := List.append_inj h ((hsize item).trans (hsize item').symm)
      rw [hinj item item' hitem, ih (Nat.succ.inj hlength) hrest]

theorem FieldId.write_injective (id id' : FieldId) (h : Layout.write id = Layout.write id') : id = id' := by
  have hyields (id : FieldId) : Read.Yields (do
      let definingClass ← Read.ushort
      let type ← Read.ushort
      let name ← Read.uint
      return FieldId.mk definingClass type name) (Layout.write id) id := by
    show Read.Yields _ (Write.ushort _ ++ Write.ushort _ ++ Write.uint _) id
    rw [List.append_assoc]
    exact (Read.yields_ushort _).bind ((Read.yields_ushort _).bind ((Read.yields_uint _).bind_pure _))
  exact (hyields id).unique (h ▸ hyields id')

namespace Blueprint

/-- Nothing in the file points at a field. -/
structure Fieldless (b : Blueprint) : Prop where
  classes : b.classes = []
  arrays : b.pools.arrays.sortedKeys = []
  annotations : b.pools.annotations.sortedKeys = []
  handles : b.pools.handles.sortedKeys = []

/-- The file with other fields. -/
def withFields (b : Blueprint) (fields : Pool FieldSig) : Blueprint :=
  { b with pools := { b.pools with fields } }

variable {b : Blueprint} (hb : b.Fieldless) (fields : Pool FieldSig)

include hb

/-- The data are the same. -/
theorem writeData_withFields : (b.withFields fields).writeData = b.writeData := by
  have hstrings : (b.withFields fields).stringItems = b.stringItems := rfl
  have htypeLists : (b.withFields fields).typeListItems = b.typeListItems := rfl
  have harrays : (b.withFields fields).arrayItems = b.arrayItems := by
    show b.pools.arrays.sortedKeys.mapM _ = b.pools.arrays.sortedKeys.mapM _
    rw [hb.arrays, List.mapM_nil, List.mapM_nil]
  have hannotations : (b.withFields fields).annotationItems = b.annotationItems := by
    show b.pools.annotations.sortedKeys.mapM _ = b.pools.annotations.sortedKeys.mapM _
    rw [hb.annotations, List.mapM_nil, List.mapM_nil]
  have hsets : (b.withFields fields).annotationSetItems = b.annotationSetItems := rfl
  have hclasses : (b.withFields fields).classes = [] := hb.classes
  have hmethods : (b.withFields fields).methods = [] ∧ b.methods = [] := by
    rw [methods, hclasses, methods, hb.classes]
    exact ⟨rfl, rfl⟩
  simp only [writeData, hstrings, htypeLists, harrays, hannotations, hsets, parameterItems, directoryItems, debugItems,
    codeItems, classDataItems, hmethods, hclasses, hb.classes, hiddenApiItems, List.map_nil, List.mapM_nil,
    List.filter_nil]

/-- The identifiers of the fields stand between those of the other kinds. -/
theorem exists_writeIds_withFields {offsets : DataOffsets} {ids : List UInt8} (h : b.writeIds offsets = .ok ids) :
    ∃ front back : List UInt8, ∀ (fields : Pool FieldSig) (fieldIds : List FieldId),
      fields.sortedKeys.mapM b.fieldId = .ok fieldIds →
        (b.withFields fields).writeIds offsets = .ok (front ++ Layout.writeItems fieldIds ++ back) := by
  obtain ⟨_, _, h⟩ := Result.bind_eq_ok h
  obtain ⟨methods, hmethods, _⟩ := Result.bind_eq_ok h
  refine ⟨Layout.writeItems (b.stringIds offsets) ++ Layout.writeItems b.typeIds ++
      Layout.writeItems (b.pools.protos.sortedKeys.map (b.protoId offsets)),
    Layout.writeItems methods ++ (Layout.writeItems (b.classes.map (b.classDefItem offsets)) ++
      (Layout.writeItems (b.callSiteIds offsets) ++ Layout.writeItems ([] : List MethodHandleId))),
    fun fields fieldIds hfields => ?_⟩
  have hfields : (b.withFields fields).pools.fields.sortedKeys.mapM (b.withFields fields).fieldId = .ok fieldIds := hfields
  have hmethods : (b.withFields fields).pools.methods.sortedKeys.mapM (b.withFields fields).methodId = .ok methods :=
    hmethods
  have hhandles : (b.withFields fields).pools.handles.sortedKeys = [] := hb.handles
  rw [writeIds]
  dsimp only
  rw [hfields, Result.ok_bind, hmethods, Result.ok_bind, hhandles, List.mapM_nil, Result.pure_eq_ok, Result.ok_bind]
  show Except.ok _ = Except.ok _
  simp only [stringIds, typeIds, callSiteIds, List.append_assoc]
  rfl

/-- Files with as many other fields are told apart by the identifiers of the fields. -/
theorem not_agree_withFields (hlisted : b.pools.Listed) (hdata : Draft.Succeeds b.writeData)
    (hids : ∀ offsets, ∃ ids, b.writeIds offsets = .ok ids) {fields fields' : Pool FieldSig} {count : Nat}
    (hsize : fields.size = count) (hsize' : fields'.size = count) {ids ids' : List FieldId}
    (hfields : fields.sortedKeys.mapM b.fieldId = .ok ids) (hfields' : fields'.sortedKeys.mapM b.fieldId = .ok ids')
    (hlength : ids.length = count) (hlength' : ids'.length = count) (hne : ids ≠ ids') :
    ¬ Result.Agree (b.withFields fields).write (b.withFields fields').write := by
  have hlist {fields : Pool FieldSig} {ids : List FieldId} (hsize : fields.size = count)
      (hfields : fields.sortedKeys.mapM b.fieldId = .ok ids) (hlength : ids.length = count) :
      (b.withFields fields).pools.Listed :=
    { hlisted with fields := (Result.forall₂_of_mapM hfields).length_eq.trans (hlength.trans hsize.symm) }
  have hstart : (b.withFields fields).dataOffset = (b.withFields fields').dataOffset := by
    have hcount : (b.withFields fields).pools.fields.size = (b.withFields fields').pools.fields.size :=
      hsize.trans hsize'.symm
    simp only [dataOffset, idSections, hcount]
    rfl
  obtain ⟨⟨offsets, data⟩, hdata⟩ := hdata (Draft.startingAt (b.withFields fields).dataOffset)
  obtain ⟨own, hown⟩ := hids offsets
  obtain ⟨front, back, hwritten⟩ := exists_writeIds_withFields hb hown
  let parts : (b.withFields fields).Parts := {
    offsets, data
    ids := front ++ Layout.writeItems ids ++ back
    writeData_eq := by rw [writeData_withFields hb]; exact hdata
    writeIds_eq := hwritten fields ids hfields
    dataOffset_eq := (writeIds_spec (hlist hsize hfields hlength) (hwritten fields ids hfields)).1 }
  let parts' : (b.withFields fields').Parts := {
    offsets, data
    ids := front ++ Layout.writeItems ids' ++ back
    writeData_eq := by rw [writeData_withFields hb, ← hstart]; exact hdata
    writeIds_eq := hwritten fields' ids' hfields'
    dataOffset_eq := (writeIds_spec (hlist hsize' hfields' hlength') (hwritten fields' ids' hfields')).1 }
  intro hagree
  have hfile : parts.file = parts'.file := by
    have hwrite := hagree.ok parts.write_eq
    rw [parts'.write_eq] at hwrite
    exact (Except.ok.inj hwrite).symm
  have hbody : parts.header.write ++ parts.body = parts'.header.write ++ parts'.body := congrArg Array.toList hfile
  have hbody : front ++ Layout.writeItems ids ++ back ++ _ = front ++ Layout.writeItems ids' ++ back ++ _ :=
    (List.append_inj hbody ((Header.length_write _).trans (Header.length_write _).symm)).2
  have hitems : (Layout.writeItems ids).length = (Layout.writeItems ids').length := by
    rw [length_writeItems fun id _ => Layout.length_fieldId id, length_writeItems fun id _ => Layout.length_fieldId id,
      hlength, hlength']
  have hsame := (List.append_inj hbody (by simp only [List.length_append, hitems])).1
  have hsame := List.append_cancel_left (List.append_cancel_right hsame)
  exact hne (Layout.eq_of_writeItems_eq Layout.length_fieldId FieldId.write_injective (hlength.trans hlength'.symm) hsame)

end Blueprint

/-! ## Identifiers of fields -/

/-- The pools hold what a field is made of. -/
structure Pools.HasParts (p : Pools) (f : FieldSig) : Prop where
  definingClass : p.Has (.type f.definingClass)
  name : p.Has (.string f.name)
  type : p.Has (.type f.type)

namespace Blueprint

variable {b : Blueprint} (hr : b.pools.Ranked) (htypes : b.pools.types.size ≤ 0x10000)

include hr htypes

theorem exists_fieldId {f : FieldSig} (hf : b.pools.HasParts f) : ∃ id, b.fieldId f = .ok id := by
  obtain ⟨definingClass, hclass⟩ := exists_narrow hr.types htypes hf.definingClass "type"
  obtain ⟨type, htype⟩ := exists_narrow hr.types htypes hf.type "type"
  exact ⟨_, by rw [fieldId, hclass, Result.ok_bind, htype]; rfl⟩

/-- Different fields have different identifiers. -/
theorem eq_of_fieldId_eq (hstrings : b.pools.strings.size ≤ UInt32.size) {f g : FieldSig} (hf : b.pools.HasParts f)
    (hg : b.pools.HasParts g) {id : FieldId} (hid : b.fieldId f = .ok id) (hid' : b.fieldId g = .ok id) : f = g := by
  obtain ⟨definingClass, hclass, hid⟩ := Result.bind_eq_ok hid
  obtain ⟨type, htype, hid⟩ := Result.bind_eq_ok hid
  obtain ⟨definingClass', hclass', hid'⟩ := Result.bind_eq_ok hid'
  obtain ⟨type', htype', hid'⟩ := Result.bind_eq_ok hid'
  cases hid
  obtain ⟨rfl, rfl, hname⟩ := FieldId.mk.inj (Except.ok.inj hid')
  have hbound := Nat.le_trans htypes (by decide : 0x10000 ≤ UInt32.size)
  have hclasses := hr.types.indexOrNone_inj hbound hf.definingClass hg.definingClass
    ((ofNat_of_narrow hclass).symm.trans (ofNat_of_narrow hclass'))
  have htypes := hr.types.indexOrNone_inj hbound hf.type hg.type
    ((ofNat_of_narrow htype).symm.trans (ofNat_of_narrow htype'))
  have hnames := hr.strings.indexOrNone_inj hstrings hf.name hg.name hname.symm
  obtain ⟨_, _, _⟩ := f
  obtain ⟨_, _, _⟩ := g
  obtain rfl := hclasses
  obtain rfl := htypes
  obtain rfl := hnames
  rfl

end Blueprint

end Dalvik
