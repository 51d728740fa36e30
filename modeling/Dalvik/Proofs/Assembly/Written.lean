import Dalvik.Proofs.Assembly.Opening
import Dalvik.Proofs.Class.MemberOrder
import Dalvik.Proofs.Code.Writable

/-!
# Files that are written

Making a file fails only where one of its items cannot be made. A settled blueprint
whose classes are sorted, whose bodies can be written and whose kinds of entries are
few enough for indices of 16 bits is written (`Blueprint.Settled.exists_write`).
-/

namespace Dalvik

open Result

/-! ## Tables of few keys -/

section narrow

variable {α : Type} [BEq α] [Hashable α] {pool : Pool α} {before : α → α → Prop} {entries : List Entry}
  {name : α → Entry}

/-- A pool whose keys are narrow has an index of 16 bits for each. -/
theorem Pool.Ranked.size_le_of_narrow (hp : pool.Ranked before) (hnarrow : Entry.Narrow entries name)
    (hmem : ∀ key ∈ pool.keys, name key ∈ entries) : pool.size ≤ 0x10000 := by
  rw [← hp.length_sortedKeys]
  exact hnarrow pool.sortedKeys hp.nodup fun key hkey => hmem key (hp.mem_sortedKeys.mp hkey)

theorem Pools.NumbersKeys.toNat_le [LawfulBEq α] {number : α → Result UInt32} (hn : Pools.NumbersKeys pool number)
    (hp : pool.Ranked before) (hnarrow : Entry.Narrow entries name) (hmem : ∀ key ∈ pool.keys, name key ∈ entries)
    {key : α} {index : UInt32} (h : number key = .ok index) : index.toNat ≤ 0xffff := by
  by_cases hkey : key ∈ pool.keys
  · have hlt := hp.place_lt hkey
    have hsize := hp.size_le_of_narrow hnarrow hmem
    rw [(hn key).1 hkey, hp.indexOrNone_eq hkey] at h
    rw [← Except.ok.inj h, UInt32.toNat_ofNat_of_lt' (Nat.lt_of_lt_of_le hlt (Nat.le_trans hsize (by decide)))]
    omega
  · obtain ⟨e, he⟩ := (hn key).2 hkey
    rw [he] at h
    cases h

/-- Finalized pools give small indices to what is narrow in them. -/
theorem Pools.Ranked.narrows {p : Pools} (hr : p.Ranked) (hc : p.Closed) {entries : List Entry}
    (hhas : ∀ e, p.Has e → e ∈ entries) : p.numbering.Narrows entries := fun r hr' index hindex => by
  have hn := hr.numbers hc
  cases r with
  | string s => exact hn.string.toNat_le hr.strings hr' (fun key hkey => hhas (.string key) hkey) hindex
  | type d => exact hn.type.toNat_le hr.types hr' (fun key hkey => hhas (.type key) hkey) hindex
  | field f => exact hn.field.toNat_le hr.fields hr' (fun key hkey => hhas (.field key) hkey) hindex
  | method m => exact hn.method.toNat_le hr.methods hr' (fun key hkey => hhas (.method key) hkey) hindex
  | proto q => exact hn.proto.toNat_le hr.protos hr' (fun key hkey => hhas (.proto key) hkey) hindex
  | handle k => exact hn.handle.toNat_le hr.handles hr' (fun key hkey => hhas (.handle key) hkey) hindex
  | callSite c => exact hn.callSite.toNat_le hr.callSites hr' (fun key hkey => hhas (.callSite key) hkey) hindex

end narrow

/-! ## Sections -/

namespace Draft

/-- Writing succeeds from any draft on. -/
def Succeeds {α : Type} (w : Write α) : Prop :=
  ∀ d, ∃ result, w d = .ok result

namespace Succeeds

variable {α : Type} {κ : Type} [BEq κ] [Hashable κ] {type : ItemType} {alignment : Nat}

theorem pure (a : α) : Succeeds (Pure.pure a : Write α) := fun d => ⟨(a, d), rfl⟩

theorem bind_align {next : Write α} (hnext : Succeeds next) : Succeeds (do align alignment; next) := fun _ => hnext _

/-- Writing a section and going on. -/
theorem bind_section {items : List (κ × List UInt8)} {next : Std.HashMap κ Nat → Write α}
    (hnext : ∀ table, Succeeds (next table)) :
    Succeeds (do let table ← writeSection type alignment items; next table) := fun _ => hnext _ _

/-- Making items that can be made, writing a section of them and going on. -/
theorem bind_made {made : Result (List (κ × List UInt8))} (h : ∃ items, made = .ok items)
    {next : Std.HashMap κ Nat → Write α} (hnext : ∀ table, Succeeds (next table)) :
    Succeeds (do let items ← liftM made; let table ← writeSection type alignment items; next table) := by
  obtain ⟨items, rfl⟩ := h
  exact bind_section hnext

end Succeeds

end Draft

namespace Blueprint

theorem exists_narrow {α : Type} [BEq α] [Hashable α] [LawfulBEq α] {p : Pool α} {before : α → α → Prop}
    (hp : p.Ranked before) (hsize : p.size ≤ 0x10000) {key : α} (hkey : key ∈ p.keys) (what : String) :
    ∃ v, narrow what (p.indexOrNone key).toNat = .ok v := by
  have hlt := hp.place_lt hkey
  have hbound : 0x10000 < UInt32.size := by decide
  rw [hp.indexOrNone_eq hkey, UInt32.toNat_ofNat_of_lt' (by omega), narrow, if_neg (by omega)]
  exact ⟨_, rfl⟩

/-- Identifiers can be made where the indices in them fit into 16 bits. -/
theorem exists_writeIds {b : Blueprint} (hr : b.pools.Ranked) (hc : b.pools.Closed)
    (htypes : b.pools.types.size ≤ 0x10000) (hprotos : b.pools.protos.size ≤ 0x10000)
    (hfields : b.pools.fields.size ≤ 0x10000) (hmethods : b.pools.methods.size ≤ 0x10000) (offsets : DataOffsets) :
    ∃ ids, b.writeIds offsets = .ok ids := by
  obtain ⟨fields, hfieldIds⟩ : ∃ ids, b.pools.fields.sortedKeys.mapM b.fieldId = .ok ids := by
    refine Result.exists_mapM fun f hf => ?_
    rw [hr.fields.mem_sortedKeys] at hf
    obtain ⟨definingClass, hclass⟩ := exists_narrow hr.types htypes (hc.definingClass_of_field hf) "type"
    obtain ⟨type, htype⟩ := exists_narrow hr.types htypes (hc.type_of_field hf) "type"
    exact ⟨_, by rw [fieldId, hclass, Result.ok_bind, htype]; rfl⟩
  obtain ⟨methods, hmethodIds⟩ : ∃ ids, b.pools.methods.sortedKeys.mapM b.methodId = .ok ids := by
    refine Result.exists_mapM fun m hm => ?_
    rw [hr.methods.mem_sortedKeys] at hm
    obtain ⟨definingClass, hclass⟩ := exists_narrow hr.types htypes (hc.definingClass_of_method hm) "type"
    obtain ⟨proto, hproto⟩ := exists_narrow hr.protos hprotos (hc.proto_of_method hm) "proto"
    exact ⟨_, by rw [methodId, hclass, Result.ok_bind, hproto]; rfl⟩
  obtain ⟨handles, hhandleIds⟩ : ∃ ids, b.pools.handles.sortedKeys.mapM b.handleId = .ok ids := by
    refine Result.exists_mapM fun k hk => ?_
    have hmember := hc.member_of_handle (hr.handles.mem_sortedKeys.mp hk)
    obtain ⟨member, hindex⟩ : ∃ v, narrow "member" (b.memberIndex k.member).toNat = .ok v := by
      revert hmember
      cases k.member with
      | field f => exact fun hf => exists_narrow hr.fields hfields hf "member"
      | method m => exact fun hm => exists_narrow hr.methods hmethods hm "member"
    exact ⟨_, by rw [handleId, hindex]; rfl⟩
  rw [writeIds]
  dsimp only
  rw [hfieldIds, Result.ok_bind, hmethodIds, Result.ok_bind, hhandleIds, Result.ok_bind]
  exact ⟨_, rfl⟩

/-- What the writers demand of a file besides that it is settled: the entries of its
kinds are few, its members are in order, and its bodies can be written. -/
structure Demanded (b : Blueprint) (entries : List Entry) : Prop where
  has : ∀ e, b.pools.Has e → e ∈ entries
  types : Entry.Narrow entries .type
  protos : Entry.Narrow entries .proto
  fields : Entry.Narrow entries .field
  methods : Entry.Narrow entries .method
  sorted : ∀ c ∈ b.classes, c.Sorted
  code : ∀ c ∈ b.classes, ∀ m ∈ c.methods, ∀ code ∈ m.code, code.Writable b.opcodes entries

namespace Settled

variable {b : Blueprint} {entries : List Entry} (hs : b.Settled) (hd : b.Demanded entries)

include hs hd

theorem size_types : b.pools.types.size ≤ 0x10000 :=
  hs.ranked.types.size_le_of_narrow hd.types fun d hmem => hd.has (.type d) hmem

theorem size_protos : b.pools.protos.size ≤ 0x10000 :=
  hs.ranked.protos.size_le_of_narrow hd.protos fun q hmem => hd.has (.proto q) hmem

theorem size_fields : b.pools.fields.size ≤ 0x10000 :=
  hs.ranked.fields.size_le_of_narrow hd.fields fun f hmem => hd.has (.field f) hmem

theorem size_methods : b.pools.methods.size ≤ 0x10000 :=
  hs.ranked.methods.size_le_of_narrow hd.methods fun m hmem => hd.has (.method m) hmem

theorem exists_typeListItems : ∃ items, b.typeListItems = .ok items := by
  refine exists_mapM fun types htypes => ?_
  obtain ⟨entries, hentries⟩ : ∃ entries,
      (types.mapM fun t => TypeEntry.mk <$> narrow "type" (b.pools.types.indexOrNone t).toNat) = .ok entries := by
    refine exists_mapM fun d hd' => ?_
    have hmem := hs.closed.types_of_typeList (hs.ranked.typeLists.mem_sortedKeys.mp htypes) hd'
    obtain ⟨index, hindex⟩ := exists_narrow hs.ranked.types (hs.size_types hd) hmem "type"
    exact ⟨⟨index⟩, by rw [hindex]; rfl⟩
  exact ⟨_, by rw [hentries]; rfl⟩

omit hd in
theorem exists_arrayItems : ∃ items, b.arrayItems = .ok items := by
  refine exists_mapM fun values hvalues => ?_
  obtain ⟨form, hform⟩ := Value.exists_encodeArray fun e he =>
    hs.indexes (hs.closed.support (e := .array values) (hs.ranked.arrays.mem_sortedKeys.mp hvalues) he)
  exact ⟨_, by rw [hform]; rfl⟩

omit hd in
theorem exists_annotationItems : ∃ items, b.annotationItems = .ok items := by
  refine exists_mapM fun a ha => ?_
  have hsupport : ∀ e ∈ Entry.ofType a.type ++ Entry.ofElements a.elements, b.pools.numbering.Indexes e :=
    fun e he => hs.indexes (hs.closed.support (e := .annotationItem a) (hs.ranked.annotations.mem_sortedKeys.mp ha) he)
  obtain ⟨form, hform⟩ := Value.exists_encodeBody (hsupport _ (List.mem_append_left _ (Entry.type_mem_ofType a.type)))
    (Value.indexes_of_ofElements a.elements fun e he => hsupport e (List.mem_append_right _ he))
  exact ⟨_, by rw [hform]; rfl⟩

omit hd in
theorem exists_annotationSetItems (offsets : Std.HashMap AnnotationItem Nat) :
    ∃ items, b.annotationSetItems offsets = .ok items := by
  refine exists_mapM fun set hset => ?_
  obtain ⟨entries, hentries⟩ : ∃ entries,
      (set.mapM fun a => do return (← b.pools.numbering.type a.type, offsetIn offsets a)) = Except.ok entries := by
    refine exists_mapM fun a ha => ?_
    have hitem : b.pools.Has (.annotationItem a) :=
      hs.closed.support (e := .annotationSet set) (hs.ranked.annotationSets.mem_sortedKeys.mp hset)
        (List.mem_map_of_mem ha)
    obtain ⟨index, hindex⟩ := hs.indexes (hs.closed.support hitem (List.mem_append_left _ (Entry.type_mem_ofType a.type)))
    exact ⟨_, by rw [hindex]; rfl⟩
  exact ⟨_, by rw [hentries]; rfl⟩

section bodies

variable {c : ClassDef} (hc : c ∈ b.classes) {m : MethodDef} (hm : m ∈ c.methods)

include hc hm

theorem exists_debugItem? : ∃ item, b.debugItem? c m = .ok item := by
  have hmethod : ∀ e ∈ Entry.ofMethodDef m, b.pools.numbering.Indexes e := fun e he =>
    hs.indexes (hs.has_methodDef hc hm he)
  simp only [Entry.ofMethodDef, List.mem_append, List.mem_flatMap, Option.mem_toList] at hmethod
  unfold debugItem?
  dsimp only
  split
  · exact ⟨_, rfl⟩
  · rename_i code hcode
    have hnames : ∀ name ∈ m.parameters.map (·.name), ∀ e ∈ Entry.ofString? name, b.pools.numbering.Indexes e := by
      intro name hname e he
      obtain ⟨p, hp, rfl⟩ := List.mem_map.mp hname
      exact hmethod e (.inl (.inl (.inl (.inr ⟨p, hp, he⟩))))
    have hitems : ∀ item ∈ code.debug, ∀ e ∈ Entry.ofDebugEvent item.event, b.pools.numbering.Indexes e :=
      fun item hitem e he => hmethod e (.inl (.inl (.inr ⟨code, hcode,
        List.mem_append_right _ (List.mem_flatMap.mpr ⟨item, hitem, he⟩)⟩)))
    obtain ⟨form, hform⟩ := DebugInfo.exists_encode hnames hitems (hd.code c hc m hm code hcode).debug
    split
    · exact ⟨_, rfl⟩
    · exact ⟨_, by rw [hform]; rfl⟩

theorem exists_codeItem? (debugOffsets : Std.HashMap MethodSig Nat) :
    ∃ item, b.codeItem? debugOffsets c m = .ok item := by
  unfold codeItem?
  split
  · exact ⟨_, rfl⟩
  · rename_i code hcode
    have hindexes : ∀ e ∈ Entry.ofCode code, b.pools.numbering.Indexes e := fun e he => by
      refine hs.indexes (hs.has_methodDef hc hm ?_)
      simp only [Entry.ofMethodDef, List.mem_append, List.mem_flatMap, Option.mem_toList]
      exact .inl (.inl (.inr ⟨code, hcode, he⟩))
    obtain ⟨form, hform⟩ := CodeItem.exists_encode (hs.ranked.narrows hs.closed hd.has) (hd.code c hc m hm code hcode)
      hindexes m (offsetIn debugOffsets m.sig)
    exact ⟨_, by rw [hform]; rfl⟩

end bodies

theorem exists_debugItems : ∃ items, b.debugItems = .ok items := by
  have hitem : ∀ cm ∈ b.methods, ∃ item, b.debugItem? cm.1 cm.2 = .ok item := fun cm hcm =>
    hs.exists_debugItem? hd (Complete.mem_methods.mp hcm).1 (Complete.mem_methods.mp hcm).2
  obtain ⟨items, hitems⟩ := exists_mapM hitem
  exact ⟨items.filterMap id, by
    show (b.methods.mapM (fun cm => b.debugItem? cm.1 cm.2) >>= _) = _
    rw [hitems]
    rfl⟩

theorem exists_codeItems (debugOffsets : Std.HashMap MethodSig Nat) : ∃ items, b.codeItems debugOffsets = .ok items := by
  have hitem : ∀ cm ∈ b.methods, ∃ item, b.codeItem? debugOffsets cm.1 cm.2 = .ok item := fun cm hcm =>
    hs.exists_codeItem? hd (Complete.mem_methods.mp hcm).1 (Complete.mem_methods.mp hcm).2 debugOffsets
  obtain ⟨items, hitems⟩ := exists_mapM hitem
  exact ⟨items.filterMap id, by
    show (b.methods.mapM (fun cm => b.codeItem? debugOffsets cm.1 cm.2) >>= _) = _
    rw [hitems]
    rfl⟩

section members

variable {c : ClassDef} (hc : c ∈ b.classes)

include hc

/-- A list of fields of a class is written if it is in order. -/
theorem exists_writeFields {fields : List FieldDef} (hsub : fields.Sublist c.fields)
    (hsorted : fields.Pairwise fun f g => (SortKey.compare f.sortKey g.sortKey).isLE = true) :
    ∃ form, Members.writeFields b.pools c.type fields = .ok form := by
  have hsize := Nat.le_trans (hs.size_fields hd) (by decide : 0x10000 ≤ UInt32.size)
  have hclass : ∀ f ∈ fields, f.definingClass = c.type := fun f hf =>
    (hs.distinct c hc).definingClass_of_field f (hsub.subset hf)
  have hfollows : Members.FollowsIndices _ fields FieldDef.sig FieldDef.sortKey (.fieldsOutOfOrder c.type)
      (Members.fieldDeltas b.pools c.type fields) :=
    hs.ranked.fields.followsIndices hsize (fun f hf => hs.has_field hc (hsub.subset hf))
      (fun f hf g hg => FieldDef.compare_sig ((hclass f hf).trans (hclass g hg).symm)) hsorted
  obtain ⟨ds, hds⟩ := hfollows.exists_iff.mpr ((hs.distinct c hc).fields.sublist (hsub.map _))
  exact ⟨_, by rw [Members.writeFields_eq, hds]; rfl⟩

/-- A list of methods of a class is written if it is in order. -/
theorem exists_writeMethods (codeOffsets : Std.HashMap MethodSig Nat) {methods : List MethodDef}
    (hsub : methods.Sublist c.methods)
    (hsorted : methods.Pairwise fun m n => (SortKey.compare m.sortKey n.sortKey).isLE = true) :
    ∃ form, Members.writeMethods b.pools codeOffsets c.type methods = .ok form := by
  have hsize := Nat.le_trans (hs.size_methods hd) (by decide : 0x10000 ≤ UInt32.size)
  have hclass : ∀ m ∈ methods, m.definingClass = c.type := fun m hm =>
    (hs.distinct c hc).definingClass_of_method m (hsub.subset hm)
  have hfollows : Members.FollowsIndices _ methods MethodDef.sig MethodDef.sortKey (.methodsOutOfOrder c.type)
      (Members.methodDeltas b.pools c.type methods) :=
    hs.ranked.methods.followsIndices hsize (fun m hm => hs.has_method hc (hsub.subset hm))
      (fun m hm n hn => MethodDef.compare_sig ((hclass m hm).trans (hclass n hn).symm)) hsorted
  obtain ⟨ds, hds⟩ := hfollows.exists_iff.mpr ((hs.distinct c hc).methods.sublist (hsub.map _))
  exact ⟨_, by rw [Members.writeMethods_eq, hds]; rfl⟩

theorem exists_writeClassData (codeOffsets : Std.HashMap MethodSig Nat) :
    ∃ form, Members.writeClassData b.pools codeOffsets c = .ok form := by
  have hsorted := hd.sorted c hc
  obtain ⟨statics, hstatics⟩ := hs.exists_writeFields hd hc (List.sublist_append_left ..) hsorted.staticFields
  obtain ⟨instances, hinstances⟩ := hs.exists_writeFields hd hc (List.sublist_append_right ..) hsorted.instanceFields
  obtain ⟨directs, hdirects⟩ := hs.exists_writeMethods hd hc codeOffsets (List.sublist_append_left ..)
    hsorted.directMethods
  obtain ⟨virtuals, hvirtuals⟩ := hs.exists_writeMethods hd hc codeOffsets (List.sublist_append_right ..)
    hsorted.virtualMethods
  exact ⟨_, by
    rw [Members.writeClassData, hstatics, ok_bind, hinstances, ok_bind, hdirects, ok_bind, hvirtuals]
    rfl⟩

end members

theorem exists_classDataItems (codeOffsets : Std.HashMap MethodSig Nat) :
    ∃ items, b.classDataItems codeOffsets = .ok items := by
  refine exists_mapM fun c hc => ?_
  obtain ⟨form, hform⟩ := hs.exists_writeClassData hd (List.mem_filter.mp hc).1 codeOffsets
  exact ⟨_, by rw [hform]; rfl⟩

/-- All sections of the data are written. -/
theorem succeeds_writeData : Draft.Succeeds b.writeData := by
  unfold writeData
  refine .bind_section fun strings => .bind_made (hs.exists_typeListItems hd) fun typeLists => ?_
  refine .bind_made hs.exists_arrayItems fun arrays => .bind_made hs.exists_annotationItems fun annotations => ?_
  refine .bind_align (.bind_made (hs.exists_annotationSetItems annotations) fun sets => ?_)
  refine .bind_section fun parameters => .bind_section fun directories => ?_
  refine .bind_made (hs.exists_debugItems hd) fun debug => .bind_made (hs.exists_codeItems hd debug) fun code => ?_
  exact .bind_made (hs.exists_classDataItems hd code) fun classData => .bind_section fun _ => .pure _

/-- A settled file that meets the demands of the writers is written. -/
theorem exists_write : ∃ bytes, b.write = .ok bytes := by
  obtain ⟨⟨offsets, data⟩, hdata⟩ := hs.succeeds_writeData hd (Draft.startingAt b.dataOffset)
  obtain ⟨ids, hids⟩ := exists_writeIds hs.ranked hs.closed (hs.size_types hd) (hs.size_protos hd) (hs.size_fields hd)
    (hs.size_methods hd) offsets
  let parts : b.Parts := ⟨offsets, data, ids, hdata, hids, (writeIds_spec hs.ranked.listed hids).1⟩
  exact ⟨parts.file, parts.write_eq⟩

end Settled

end Blueprint

end Dalvik
