import Dalvik.Proofs.Assembly.Thinning
import Dalvik.Proofs.Class.KeptSizes
import Dalvik.Proofs.Code.Lowering

/-!
# A file that is written again is no larger

The items of the file that is written of what is read have the keys that they had before,
except for strings that are gone, and are no longer. So the data are written and end no
later (`Blueprint.Thins.trails_writeData`), and the whole file is no larger
(`Blueprint.Thins.exists_write`).
-/

namespace Dalvik

open Draft (NoLonger Below Behind Trails)
open Result (Leads)

namespace Draft.NoLonger

variable {κ : Type}

theorem of_length_eq {key : κ} {form form' : List UInt8} (h : form'.length = form.length) :
    NoLonger (key, form) (key, form') :=
  ⟨rfl, h.le⟩

end Draft.NoLonger

namespace Blueprint

/-! ## Identifier sections -/

/-- The second section has identifiers of the same size and no more of them. -/
def FewerIds (s s' : ItemType × Nat × Nat) : Prop :=
  s'.2.1 ≤ s.2.1 ∧ s'.2.2 = s.2.2

namespace FewerIds

variable {sections sections' : List (ItemType × Nat × Nat)} (h : List.Forall₂ FewerIds sections sections')

include h

theorem foldl_le {start start' : Nat} (hstart : start' ≤ start) :
    sections'.foldl (fun offset s => offset + s.2.1 * s.2.2) start' ≤
      sections.foldl (fun offset s => offset + s.2.1 * s.2.2) start := by
  induction h generalizing start start' with
  | nil => exact hstart
  | cons hs _ ih => exact ih (Nat.add_le_add hstart (Nat.mul_le_mul hs.1 hs.2.le))

/-- No more of the sections have items. -/
theorem length_mapEntries_le (start start' : Nat) : (Draft.mapEntries (sectionStarts start' sections')).length ≤
    (Draft.mapEntries (sectionStarts start sections)).length := by
  induction h generalizing start start' with
  | nil => exact Nat.le_refl _
  | @cons s s' _ _ hs _ ih =>
    have hentry : (Draft.mapEntry s'.1 s'.2.1 start').length ≤ (Draft.mapEntry s.1 s.2.1 start).length := by
      unfold Draft.mapEntry
      split
      · exact Nat.zero_le _
      · rename_i hsome
        have hle := hs.1
        rw [if_neg (by omega)]
        exact Nat.le_refl 1
    rw [sectionStarts, sectionStarts, Draft.mapEntries_cons, Draft.mapEntries_cons, List.length_append, List.length_append]
    exact Nat.add_le_add hentry (ih _ _)

end FewerIds

namespace Thins

variable {b b' : Blueprint} (h : b.Thins b')

include h

/-! ## Strings, lists and annotations -/

theorem sublist_stringItems : b'.stringItems.Sublist b.stringItems :=
  h.strings.map _

theorem leads_typeListItems : Leads (List.Forall₂ NoLonger) b.typeListItems b'.typeListItems := by
  have heq : b'.typeListItems = b.typeListItems := by
    simp only [Blueprint.typeListItems, h.typeLists.sortedKeys_eq, h.types.indexOrNone_eq]
  rw [heq]
  exact fun items hitems => ⟨items, hitems, List.forall₂_same.mpr fun _ _ => ⟨rfl, .rfl⟩⟩

section settled

variable (hb' : b'.Settled)

include hb'

theorem leads_arrayItems : Leads (List.Forall₂ NoLonger) b.arrayItems b'.arrayItems := by
  rw [Blueprint.arrayItems, h.arrays.sortedKeys_eq]
  refine .mapM_same fun values hvalues => ?_
  have hhas : b'.pools.Has (.array values) := hb'.ranked.arrays.mem_sortedKeys.mp hvalues
  exact (Value.leads_encodeArray h.lowers fun e he => hb'.indexes (hb'.closed.support hhas he)).bind fun _ _ hform =>
    .ok ⟨rfl, hform⟩

theorem leads_annotationItems : Leads (List.Forall₂ NoLonger) b.annotationItems b'.annotationItems := by
  rw [Blueprint.annotationItems, h.annotations.sortedKeys_eq]
  refine .mapM_same fun a ha => ?_
  have hhas : b'.pools.Has (.annotationItem a) := hb'.ranked.annotations.mem_sortedKeys.mp ha
  have hindexes : ∀ e ∈ Entry.ofType a.type ++ Entry.ofElements a.elements, b'.pools.numbering.Indexes e :=
    fun e he => hb'.indexes (hb'.closed.support hhas he)
  have hbody := Value.leads_encodeBody h.lowers (hindexes _ (List.mem_append_left _ (Entry.type_mem_ofType a.type)))
    (Value.leads_encodeElements h.lowers a.elements fun e he => hindexes e (List.mem_append_right _ he))
  exact hbody.bind fun _ _ hform => .ok ⟨rfl, hform.cons _ _⟩

theorem leads_annotationSetItems (offsets offsets' : Std.HashMap AnnotationItem Nat) :
    Leads (List.Forall₂ NoLonger) (b.annotationSetItems offsets) (b'.annotationSetItems offsets') := by
  have hlength {entries : List (UInt32 × UInt32)} : (Layout.write (SizedList.ofItems
      ((Members.sortedEntries entries).map fun entry => OffsetEntry.mk entry.2) : OffsetList)).length =
        4 + entries.length * 4 := by
    rw [Layout.length_sizedList fun item _ => Layout.length_offsetEntry item, List.length_map,
      (Members.sortedEntries_perm entries).length_eq]
  rw [Blueprint.annotationSetItems, h.annotationSets.sortedKeys_eq]
  refine .mapM_same fun set hset => ?_
  have hhas : b'.pools.Has (.annotationSet set) := hb'.ranked.annotationSets.mem_sortedKeys.mp hset
  refine Leads.bind (R := List.Forall₂ fun _ _ => True) (.mapM_same fun a ha => ?_) fun entries entries' hentries =>
    .ok (.of_length_eq ?_)
  · have hitem : b'.pools.Has (.annotationItem a) := hb'.closed.support hhas (List.mem_map_of_mem ha)
    have htype := hb'.indexes (hb'.closed.support hitem (List.mem_append_left _ (Entry.type_mem_ofType a.type)))
    exact (h.lowers.leads_type htype).bind fun _ _ _ => .ok trivial
  · rw [hlength, hlength, hentries.length_eq]

end settled

/-! ## Members -/

/-- The methods of the file go together with those that it gives back. -/
theorem forall₂_methods : List.Forall₂ (fun cm cm' => (cm.1 ∈ b.classes ∧ cm.2 ∈ cm.1.methods) ∧
    cm' = (cm.1.kept, cm.2.kept (cm.1.keptHidden cm.2.hidden))) b.methods b'.methods := by
  have heq : b'.methods = b.methods.map fun cm => (cm.1.kept, cm.2.kept (cm.1.keptHidden cm.2.hidden)) := by
    rw [Blueprint.methods, Blueprint.methods, h.classes, List.flatMap_map, List.map_flatMap]
    refine List.flatMap_congr fun c _ => ?_
    rw [ClassDef.methods_kept, List.map_map, List.map_map]
    rfl
  rw [heq]
  exact List.forall₂_map_right_iff.mpr (List.forall₂_same.mpr fun cm hcm => ⟨Complete.mem_methods.mp hcm, rfl⟩)

/-- What is made of each method goes together if it does for each method that is given
back. -/
theorem leads_methods {α β : Type} {R : α → β → Prop} {f : ClassDef → MethodDef → Result α}
    {g : ClassDef → MethodDef → Result β} (hfg : ∀ c ∈ b.classes, ∀ m ∈ c.methods,
      Leads R (f c m) (g c.kept (m.kept (c.keptHidden m.hidden)))) :
    Leads (List.Forall₂ R) (b.methods.mapM fun cm => f cm.1 cm.2) (b'.methods.mapM fun cm => g cm.1 cm.2) := by
  refine .mapM h.forall₂_methods fun cm _ _ _ ⟨⟨hc, hm⟩, heq⟩ => ?_
  rw [heq]
  exact hfg cm.1 hc cm.2 hm

section orderly

variable (hb : b.Orderly)

include hb

theorem forall₂_parameterItems (sets sets' : Members.SetOffsets) :
    List.Forall₂ NoLonger (b.parameterItems sets) (b'.parameterItems sets') := by
  refine List.forall₂_map_left_iff.mpr (List.forall₂_map_right_iff.mpr
    ((List.rel_filter ?_ h.forall₂_methods).imp ?_))
  · rintro ⟨c, m⟩ _ ⟨⟨hc, hm⟩, rfl⟩
    exact Bool.eq_iff_iff.mp (Members.hasParameterAnnotations_kept (hb.innerArranged c hc) hm _).symm
  · rintro ⟨c, m⟩ _ ⟨-, rfl⟩
    refine ⟨(m.sig_kept _).symm, Nat.le_of_eq ?_⟩
    dsimp only
    rw [Members.length_parameterSets, Members.length_parameterSets, MethodDef.kept, List.length_map]

theorem forall₂_directoryItems {sets sets' : Members.SetOffsets} (hsets : Below sets sets')
    {offsets offsets' : Std.HashMap MethodSig Nat} (hoffsets : Below offsets offsets') :
    List.Forall₂ NoLonger (b.directoryItems sets offsets) (b'.directoryItems sets' offsets') := by
  rw [Blueprint.directoryItems, Blueprint.directoryItems, h.classes, List.map_map, List.filterMap_map,
    List.filterMap_map]
  refine List.rel_filterMap (R := fun c c' => c ∈ b.classes ∧ c = c') ?_
    (List.forall₂_same.mpr fun c hc => ⟨hc, rfl⟩)
  rintro c _ ⟨hc, rfl⟩
  obtain ⟨hempty, hlength⟩ := Members.directory_kept (hb.innerArranged c hc) b.pools b'.pools hsets hoffsets
  simp only [Function.comp_apply, hempty]
  split
  · exact .none
  · exact .some ⟨rfl, Nat.le_of_eq hlength⟩

end orderly

section settled

variable (hb' : b'.Settled)

include hb'

theorem indexes_kept {c : ClassDef} (hc : c ∈ b.classes) {m : MethodDef} (hm : m ∈ c.methods) {e : Entry}
    (he : e ∈ Entry.ofMethodDef (m.kept (c.keptHidden m.hidden))) : b'.pools.numbering.Indexes e := by
  have hc' : c.kept ∈ b'.classes := h.classes ▸ List.mem_map_of_mem hc
  have hm' : m.kept (c.keptHidden m.hidden) ∈ c.kept.methods := c.methods_kept ▸ List.mem_map_of_mem hm
  exact hb'.indexes (hb'.has_methodDef hc' hm' he)

theorem leads_debugItem? {c : ClassDef} (hc : c ∈ b.classes) {m : MethodDef} (hm : m ∈ c.methods) :
    Leads (Option.Rel NoLonger) (b.debugItem? c m) (b'.debugItem? c.kept (m.kept (c.keptHidden m.hidden))) := by
  have hindexes : ∀ e ∈ Entry.ofMethodDef (m.kept (c.keptHidden m.hidden)), b'.pools.numbering.Indexes e := fun _ he =>
    h.indexes_kept hb' hc hm he
  simp only [Entry.ofMethodDef, List.mem_append, List.mem_flatMap, Option.mem_toList] at hindexes
  unfold debugItem?
  dsimp only
  rw [m.sig_kept]
  cases hcode : m.code with
  | none =>
    rw [MethodDef.kept, hcode]
    exact .ok .none
  | some code =>
    have hnames : (m.kept (c.keptHidden m.hidden)).parameters.map (·.name) = m.parameters.map (·.name) := by
      rw [MethodDef.kept, hcode, List.map_map]
      rfl
    have hcode' : (m.kept (c.keptHidden m.hidden)).code = some code.kept := by
      rw [MethodDef.kept, hcode]
      rfl
    have hform : Leads Shortens (DebugInfo.encode b.pools.numbering (m.parameters.map (·.name)) code.debug)
        (DebugInfo.encode b'.pools.numbering (m.parameters.map (·.name)) code.debug) := by
      refine DebugInfo.leads_encode h.lowers (fun name hname e he => ?_) fun item hitem e he => ?_
      · rw [← hnames] at hname
        obtain ⟨p, hp, rfl⟩ := List.mem_map.mp hname
        exact hindexes e (.inl (.inl (.inl (.inr ⟨p, hp, he⟩))))
      · exact hindexes e (.inl (.inl (.inr ⟨code.kept, hcode', List.mem_append_right _
          (List.mem_flatMap.mpr ⟨item, hitem, he⟩)⟩)))
    rw [hnames, hcode']
    show Leads (Option.Rel NoLonger) (if code.debug.isEmpty && _ then _ else _) (if code.debug.isEmpty && _ then _ else _)
    split
    · exact .ok .none
    · exact (hform.within _ _).bind fun _ _ hshort => .ok (.some ⟨rfl, hshort⟩)

theorem leads_debugItems : Leads (List.Forall₂ NoLonger) b.debugItems b'.debugItems :=
  (h.leads_methods fun _ hc _ hm => h.leads_debugItem? hb' hc hm).bind fun _ _ hitems =>
    .ok (List.rel_filterMap (fun _ _ hitem => hitem) hitems)

theorem leads_codeItem? (hb : b.Orderly) {c : ClassDef} (hc : c ∈ b.classes) {m : MethodDef} (hm : m ∈ c.methods)
    (offsets offsets' : Std.HashMap MethodSig Nat) : Leads (Option.Rel NoLonger) (b.codeItem? offsets c m)
      (b'.codeItem? offsets' c.kept (m.kept (c.keptHidden m.hidden))) := by
  unfold codeItem?
  rw [m.sig_kept]
  cases hcode : m.code with
  | none =>
    rw [MethodDef.kept, hcode]
    exact .ok .none
  | some code =>
    have hcode' : (m.kept (c.keptHidden m.hidden)).code = some code.kept := by
      rw [MethodDef.kept, hcode]
      rfl
    have hindexes : ∀ e ∈ Entry.ofCode code, b'.pools.numbering.Indexes e := fun e he => by
      refine h.indexes_kept hb' hc hm ?_
      simp only [Entry.ofMethodDef, List.mem_append, List.mem_flatMap, Option.mem_toList]
      exact .inl (.inl (.inr ⟨code.kept, hcode', (Entry.mem_ofCode_kept code e).mpr he⟩))
    have hform := CodeItem.leads_encode h.lowers h.covers (fun i hi =>
      ((hb.sound c hc m hm code hcode).instructions i hi).opcode_mem) hindexes m
      (m.kept (c.keptHidden m.hidden)) (offsetIn offsets m.sig) (offsetIn offsets' m.sig)
    rw [hcode']
    exact (hform.within _ _).bind fun _ _ hshort => .ok (.some ⟨rfl, hshort⟩)

theorem leads_codeItems (hb : b.Orderly) (offsets offsets' : Std.HashMap MethodSig Nat) :
    Leads (List.Forall₂ NoLonger) (b.codeItems offsets) (b'.codeItems offsets') :=
  (h.leads_methods fun _ hc _ hm => h.leads_codeItem? hb' hb hc hm offsets offsets').bind fun _ _ hitems =>
    .ok (List.rel_filterMap (fun _ _ hitem => hitem) hitems)

end settled

theorem leads_classDataItems {offsets offsets' : Std.HashMap MethodSig Nat} (hoffsets : Below offsets offsets') :
    Leads (List.Forall₂ NoLonger) (b.classDataItems offsets) (b'.classDataItems offsets') := by
  have hmembers : b'.classes.filter ClassDef.hasMembers = (b.classes.filter ClassDef.hasMembers).map ClassDef.kept := by
    rw [h.classes, List.filter_map]
    exact congrArg (List.map ClassDef.kept) (List.filter_congr fun c _ => c.hasMembers_kept)
  rw [Blueprint.classDataItems, Blueprint.classDataItems, hmembers]
  refine .mapM (P := fun c c' => c' = c.kept)
    (List.forall₂_map_right_iff.mpr (List.forall₂_same.mpr fun _ _ => rfl)) fun c _ _ _ heq => ?_
  rw [heq]
  exact (Members.leads_writeClassData h.fields h.methods hoffsets c).bind fun _ _ hshort => .ok ⟨rfl, hshort⟩

theorem hiddenApiItems_eq : b'.hiddenApiItems = b.hiddenApiItems := by
  rw [Blueprint.hiddenApiItems, h.classes, List.any_map, Members.writeHiddenApi_kept, Blueprint.hiddenApiItems]
  simp only [Function.comp_def, ClassDef.isRestricted_kept]

/-! ## All data -/

/-- The data of the file that is written again end no later. -/
theorem trails_writeData (hb : b.Orderly) (hb' : b'.Settled) : Trails True b.writeData b'.writeData := by
  unfold writeData
  refine .bind_fewer (.inl rfl) h.sublist_stringItems fun _ _ => ?_
  refine .bind_made (.inr rfl) (fun _ => h.leads_typeListItems) fun _ _ => ?_
  refine .bind_made (.inl rfl) (fun _ => h.leads_arrayItems hb') fun _ _ => ?_
  refine .bind_made (.inl rfl) (fun _ => h.leads_annotationItems hb') fun _ _ => ?_
  refine .bind_align (.inr rfl) ?_
  refine .bind_made (.inl rfl) (fun _ => h.leads_annotationSetItems hb' _ _) fun sets sets' => ?_
  refine .bind_section (.inl rfl) (fun _ => h.forall₂_parameterItems hb _ _) fun _ _ => ?_
  refine .bind_section (.inl rfl) (fun hP => h.forall₂_directoryItems hb hP.1.2 hP.2) fun _ _ => ?_
  refine .bind_made (.inl rfl) (fun _ => h.leads_debugItems hb') fun _ _ => ?_
  refine .bind_made (.inr rfl) (fun _ => h.leads_codeItems hb' hb _ _) fun _ _ => ?_
  refine .bind_made (.inl rfl) (fun hP => h.leads_classDataItems hP.2) fun _ _ => ?_
  refine .bind_section (.inr rfl) (fun _ => ?_) fun _ _ => .pure _ _
  rw [h.hiddenApiItems_eq]
  exact List.forall₂_same.mpr fun _ _ => ⟨rfl, .rfl⟩

/-! ## Identifiers -/

theorem leads_writeIds (offsets offsets' : DataOffsets) :
    Leads (fun _ _ => True) (b.writeIds offsets) (b'.writeIds offsets') := by
  have hfield (f : FieldSig) : Leads (fun _ _ => True) (b.fieldId f) (b'.fieldId f) := by
    rw [fieldId, h.types.indexOrNone_eq, h.types.indexOrNone_eq]
    exact Leads.rfl.bind fun _ _ _ => Leads.rfl.bind fun _ _ _ => .ok trivial
  have hmethod (m : MethodSig) : Leads (fun _ _ => True) (b.methodId m) (b'.methodId m) := by
    rw [methodId, h.types.indexOrNone_eq, h.protos.indexOrNone_eq]
    exact Leads.rfl.bind fun _ _ _ => Leads.rfl.bind fun _ _ _ => .ok trivial
  have hhandle (k : MethodHandle) : Leads (fun _ _ => True) (b.handleId k) (b'.handleId k) := by
    have hmember : b.memberIndex k.member = b'.memberIndex k.member := by
      cases k.member with
      | field f => exact h.fields.indexOrNone_eq f
      | method m => exact h.methods.indexOrNone_eq m
    rw [handleId, hmember]
    exact Leads.rfl.bind fun _ _ _ => .ok trivial
  unfold writeIds
  dsimp only
  rw [h.fields.sortedKeys_eq, h.methods.sortedKeys_eq, h.handles.sortedKeys_eq]
  exact (Leads.mapM_same fun f _ => hfield f).bind fun _ _ _ => (Leads.mapM_same fun m _ => hmethod m).bind fun _ _ _ =>
    (Leads.mapM_same fun k _ => hhandle k).bind fun _ _ _ => .ok trivial

/-- No identifier section has more items than before. -/
theorem fewer_idSections (hr : b.pools.Ranked) (hr' : b'.pools.Ranked) :
    List.Forall₂ FewerIds b.idSections b'.idSections := by
  have hstrings : b'.pools.strings.size ≤ b.pools.strings.size := by
    rw [← hr.strings.length_sortedKeys, ← hr'.strings.length_sortedKeys]
    exact h.strings.length_le
  have hclasses : b'.classes.length = b.classes.length := by rw [h.classes, List.length_map]
  exact .cons ⟨hstrings, rfl⟩ (.cons ⟨h.types.size_eq.ge, rfl⟩ (.cons ⟨h.protos.size_eq.ge, rfl⟩
    (.cons ⟨h.fields.size_eq.ge, rfl⟩ (.cons ⟨h.methods.size_eq.ge, rfl⟩ (.cons ⟨hclasses.le, rfl⟩
      (.cons ⟨h.callSites.size_eq.ge, rfl⟩ (.cons ⟨h.handles.size_eq.ge, rfl⟩ .nil)))))))

/-! ## The whole file -/

/-- The file that is written again is no larger. -/
theorem exists_write (hb : b.Orderly) (hb' : b'.Settled) {bytes : Bytes} (hwrite : b.write = .ok bytes)
    (hsize : bytes.size < extentBound) : ∃ bytes', b'.write = .ok bytes' ∧ bytes'.size ≤ bytes.size := by
  obtain ⟨parts, rfl⟩ := Parts.exists_of_write hwrite
  rw [parts.size_file_eq] at hsize
  have hfewer := h.fewer_idSections hb.ranked hb'.ranked
  have hdataOffset : b'.dataOffset ≤ b.dataOffset := FewerIds.foldl_le hfewer (Nat.le_refl _)
  have hpos : 0 < b'.dataOffset := Nat.lt_of_lt_of_le (by decide : 0 < Header.byteSize)
    (Parts.sectionStarts_le (Parts.idSections_pos b') Header.byteSize).1
  have hdata : parts.data.out.position < extentBound := Nat.lt_of_le_of_lt parts.out_extends.position_le hsize
  obtain ⟨offsets', data', hdata', hbehind⟩ := (h.trails_writeData hb hb' _ _ _ parts.writeData_eq).2 hdata trivial
    (Draft.startingAt b'.dataOffset) ⟨hpos, hdataOffset, Nat.le_refl _⟩
  obtain ⟨ids', hids', -⟩ := h.leads_writeIds parts.offsets offsets' _ parts.writeIds_eq
  let parts' : b'.Parts := ⟨offsets', data', ids', hdata', hids', (writeIds_spec hb'.ranked.listed hids').1⟩
  refine ⟨parts'.file, parts'.write_eq, ?_⟩
  rw [parts'.size_file_eq, parts.size_file_eq]
  -- the map behind the data has no more items
  have hleading : b'.leadingSections.sections.toList.length ≤ b.leadingSections.sections.toList.length := by
    rw [Parts.leadingSections_eq, Parts.leadingSections_eq, Draft.mapEntries_cons, Draft.mapEntries_cons,
      List.length_append, List.length_append]
    exact Nat.add_le_add_left (FewerIds.length_mapEntries_le hfewer _ _) _
  have hitems : parts'.mapItems.length ≤ parts.mapItems.length := by
    have hsections : data'.sections.size ≤ parts.data.sections.size := hbehind.sections
    simp only [Parts.mapItems, Array.toList_append, List.length_append, Array.length_toList, List.length_singleton,
      parts'] at hleading ⊢
    omega
  rw [parts'.out_position, parts.out_position]
  exact Nat.add_le_add (Output.align_position_mono hbehind.le (.inr rfl)) (by omega)

end Thins

end Blueprint

end Dalvik
