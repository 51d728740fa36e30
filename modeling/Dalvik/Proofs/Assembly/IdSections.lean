import Dalvik.Assembly.File
import Dalvik.Image.Basic
import Dalvik.Proofs.Assembly.Pools
import Dalvik.Proofs.Assembly.Sections

/-!
# The identifiers of a file stand where its sections say

Identifiers of one kind have one size, so that the place of each is given by its
index. The bytes of all kinds follow each other without gaps (`Blueprint.exists_idItems`).
`Blueprint.writeIds_spec` finds all kinds of identifiers in a file that
begins with a header and the written identifiers.
-/

namespace Dalvik

/-! ## Items of one size -/

/-- Identifiers of `size` bytes stand in a file where a section says. -/
structure IdsStand {ι : Type} [Layout ι] (bytes : Bytes) (s : Section) (size : Nat) (ids : List ι) : Prop where
  size_eq : s.size.toNat = ids.length
  holds : ∀ {i : Nat} {id : ι}, ids[i]? = some id → bytes.Holds (s.offset.toNat + i * size) (Layout.write id)

/-- The section of `count` items from `start` on. -/
def sectionFrom (count start : Nat) : Section :=
  if count = 0 then {} else ⟨UInt32.ofNat count, UInt32.ofNat start⟩

section ids

variable {ι : Type} [Layout ι] {bytes : Bytes} {size : Nat} {ids : List ι}

theorem length_writeItems (hsize : ∀ id ∈ ids, (Layout.write id).length = size) :
    (Layout.writeItems ids).length = ids.length * size :=
  length_flatMap_of_forall hsize

theorem holds_writeItems (hsize : ∀ id ∈ ids, (Layout.write id).length = size) {start : Nat}
    (h : bytes.Holds start (Layout.writeItems ids)) {i : Nat} {id : ι} (hid : ids[i]? = some id) :
    bytes.Holds (start + i * size) (Layout.write id) :=
  Bytes.Holds.of_flatMap hsize h hid

theorem idsStand (hbytes : bytes.size < extentBound) (hpos : 0 < size)
    (hsize : ∀ id ∈ ids, (Layout.write id).length = size) {count start : Nat}
    (hlength : (ids.map Layout.write).length = count)
    (h : bytes.Holds start (Layout.writeItems ids)) : IdsStand bytes (sectionFrom count start) size ids := by
  rw [List.length_map] at hlength
  subst hlength
  have hlength := length_writeItems hsize
  have hle := h.le_size
  have hcount : ids.length ≤ ids.length * size := Nat.le_mul_of_pos_right _ hpos
  have hbound : extentBound < UInt32.size := by decide
  unfold sectionFrom
  split
  · rename_i hnil
    rw [List.length_eq_zero_iff.mp hnil]
    exact ⟨rfl, fun hid => nomatch hid⟩
  · refine ⟨UInt32.toNat_ofNat_of_lt' (by omega), fun hid => ?_⟩
    rw [UInt32.toNat_ofNat_of_lt' (by omega)]
    exact holds_writeItems hsize h hid

end ids

namespace IdsStand

variable {ι : Type} [Layout ι] {bytes : Bytes} {s : Section} {size : Nat} {ids : List ι}

/-- An index behind the last identifier is out of bounds. -/
theorem sectionOffset_fails (h : IdsStand bytes s size ids) {index : UInt32} (hindex : ids.length ≤ index.toNat)
    (what : String) (size' : Nat) : (Image.sectionOffset s what index size').Fails := by
  rw [Image.sectionOffset, Image.itemOffset, if_neg]
  · exact ⟨_, rfl⟩
  · rw [UInt32.lt_iff_toNat_lt, h.size_eq]
    omega

/-- An identifier is found by its index. -/
theorem sectionOffset_eq (h : IdsStand bytes s size ids) {index : UInt32} {id : ι}
    (hid : ids[index.toNat]? = some id) (what : String) :
    Image.sectionOffset s what index size = .ok (s.offset.toNat + index.toNat * size) := by
  have hlt := (List.getElem?_eq_some_iff.mp hid).1
  rw [Image.sectionOffset, Image.itemOffset, if_pos]
  rw [UInt32.lt_iff_toNat_lt, h.size_eq]
  exact hlt

/-- An identifier is read by its index. -/
theorem readAt_eq (h : IdsStand bytes s size ids) {image : Image} (himage : image.bytes = bytes) {index : UInt32}
    {id : ι} (hid : ids[index.toNat]? = some id) (hreads : Layout.Reads id) :
    image.readAt (Layout.read : Read ι) (s.offset.toNat + index.toNat * size) = .ok id := by
  rw [Image.readAt, himage]
  exact hreads.at? (h.holds hid)

end IdsStand

/-- Sorting the keys that have identifiers leaves out none of them and repeats none. -/
structure Pools.Listed (p : Pools) : Prop where
  strings : p.strings.sortedKeys.length = p.strings.size
  types : p.types.sortedKeys.length = p.types.size
  protos : p.protos.sortedKeys.length = p.protos.size
  fields : p.fields.sortedKeys.length = p.fields.size
  methods : p.methods.sortedKeys.length = p.methods.size
  callSites : p.callSites.sortedKeys.length = p.callSites.size
  handles : p.handles.sortedKeys.length = p.handles.size

theorem Pools.Ranked.listed {p : Pools} (h : p.Ranked) : p.Listed where
  strings := h.strings.length_sortedKeys
  types := h.types.length_sortedKeys
  protos := h.protos.length_sortedKeys
  fields := h.fields.length_sortedKeys
  methods := h.methods.length_sortedKeys
  callSites := h.callSites.length_sortedKeys
  handles := h.handles.length_sortedKeys

namespace Blueprint

/-! ## The identifiers of a blueprint -/

variable (b : Blueprint) (offsets : DataOffsets)

/-- The identifiers of the strings. -/
def stringIds : List StringId :=
  b.pools.strings.sortedKeys.map fun s => ⟨offsetIn offsets.strings s⟩

/-- The identifiers of the types. -/
def typeIds : List TypeId :=
  b.pools.types.sortedKeys.map fun d => ⟨b.pools.strings.indexOrNone d⟩

/-- The identifiers of the call sites. -/
def callSiteIds : List CallSiteId :=
  b.pools.callSites.sortedKeys.map fun c => ⟨offsetIn offsets.arrays c.values⟩

/-- The forms of the identifiers of all kinds. -/
def idItems (fields : List FieldId) (methods : List MethodId) (handles : List MethodHandleId) :
    List (ItemType × List (List UInt8)) :=
  [(.stringId, (b.stringIds offsets).map Layout.write), (.typeId, b.typeIds.map Layout.write),
    (.protoId, (b.pools.protos.sortedKeys.map (b.protoId offsets)).map Layout.write),
    (.fieldId, fields.map Layout.write), (.methodId, methods.map Layout.write),
    (.classDef, (b.classes.map (b.classDefItem offsets)).map Layout.write),
    (.callSiteId, (b.callSiteIds offsets).map Layout.write), (.methodHandle, handles.map Layout.write)]

/-- All identifiers stand in a file where their sections say. -/
structure Identified (bytes : Bytes) : Prop where
  strings : IdsStand bytes (b.sectionOf .stringId) StringId.byteSize (b.stringIds offsets)
  types : IdsStand bytes (b.sectionOf .typeId) TypeId.byteSize b.typeIds
  protos : IdsStand bytes (b.sectionOf .protoId) ProtoId.byteSize (b.pools.protos.sortedKeys.map (b.protoId offsets))
  fields : ∃ ids, b.pools.fields.sortedKeys.mapM b.fieldId = .ok ids ∧
    IdsStand bytes (b.sectionOf .fieldId) FieldId.byteSize ids
  methods : ∃ ids, b.pools.methods.sortedKeys.mapM b.methodId = .ok ids ∧
    IdsStand bytes (b.sectionOf .methodId) MethodId.byteSize ids
  classes : IdsStand bytes (b.sectionOf .classDef) ClassDefItem.byteSize (b.classes.map (b.classDefItem offsets))
  callSites : IdsStand bytes (b.sectionOf .callSiteId) CallSiteId.byteSize (b.callSiteIds offsets)
  handles : ∃ ids, b.pools.handles.sortedKeys.mapM b.handleId = .ok ids ∧
    IdsStand bytes (b.sectionOf .methodHandle) MethodHandleId.byteSize ids

variable {b offsets}

/-- The forms of a kind are as many as its section says, and of the size that it says. -/
def Sized (s : ItemType × Nat × Nat) (items : ItemType × List (List UInt8)) : Prop :=
  items.1 = s.1 ∧ items.2.length = s.2.1 ∧ ∀ form ∈ items.2, form.length = s.2.2

theorem sized_map {ι : Type} [Layout ι] (type : ItemType) {ids : List ι} {count size : Nat}
    (hcount : ids.length = count) (hsize : ∀ id : ι, (Layout.write id).length = size) :
    Sized (type, count, size) (type, ids.map Layout.write) :=
  ⟨rfl, (List.length_map _).trans hcount, List.forall_mem_map.mpr fun id _ => hsize id⟩

theorem Sized.length_flatten {s : ItemType × Nat × Nat} {items : ItemType × List (List UInt8)} (h : Sized s items) :
    items.2.flatten.length = s.2.1 * s.2.2 := by
  have hlength := length_flatMap_of_forall (l := items.2) h.2.2
  rw [h.2.1, List.flatMap_id'] at hlength
  exact hlength

theorem map_fst_of_sized {sections : List (ItemType × Nat × Nat)} {items : List (ItemType × List (List UInt8))}
    (h : List.Forall₂ Sized sections items) : items.map Prod.fst = sections.map Prod.fst := by
  induction h with
  | nil => rfl
  | cons hsized _ ih => rw [List.map_cons, List.map_cons, ih, hsized.1]

/-- The bytes of the identifiers are the forms of all kinds, one behind the other. -/
theorem exists_idItems (hpools : b.pools.Listed) {ids : List UInt8} (h : b.writeIds offsets = .ok ids) :
    ∃ fields methods handles, b.pools.fields.sortedKeys.mapM b.fieldId = .ok fields ∧
      b.pools.methods.sortedKeys.mapM b.methodId = .ok methods ∧
      b.pools.handles.sortedKeys.mapM b.handleId = .ok handles ∧
      ids = ((b.idItems offsets fields methods handles).flatMap Prod.snd).flatten ∧
      List.Forall₂ Sized b.idSections (b.idItems offsets fields methods handles) := by
  obtain ⟨fields, hfields, h⟩ := Result.bind_eq_ok h
  obtain ⟨methods, hmethods, h⟩ := Result.bind_eq_ok h
  obtain ⟨handles, hhandles, h⟩ := Result.bind_eq_ok h
  refine ⟨fields, methods, handles, hfields, hmethods, hhandles, ?_, ?_⟩
  · cases h
    simp only [idItems, List.flatMap_cons, List.flatMap_nil, List.flatten_append, List.append_nil,
      List.append_assoc]
    rfl
  · refine .cons ?_ (.cons ?_ (.cons ?_ (.cons ?_ (.cons ?_ (.cons ?_ (.cons ?_ (.cons ?_ .nil)))))))
    · exact sized_map _ ((List.length_map _).trans hpools.strings) Layout.length_stringId
    · exact sized_map _ ((List.length_map _).trans hpools.types) Layout.length_typeId
    · exact sized_map _ ((List.length_map _).trans hpools.protos) Layout.length_protoId
    · exact sized_map _ ((Result.forall₂_of_mapM hfields).length_eq.symm.trans hpools.fields)
        Layout.length_fieldId
    · exact sized_map _ ((Result.forall₂_of_mapM hmethods).length_eq.symm.trans hpools.methods)
        Layout.length_methodId
    · exact sized_map _ (List.length_map _) Layout.length_classDefItem
    · exact sized_map _ ((List.length_map _).trans hpools.callSites) Layout.length_callSiteId
    · exact sized_map _ ((Result.forall₂_of_mapM hhandles).length_eq.symm.trans hpools.handles)
        Layout.length_handleId

/-- Sections that are written one after the other stand where they start. -/
theorem holds_sectionStarts {bytes : Bytes} {sections : List (ItemType × Nat × Nat)}
    {items : List (ItemType × List (List UInt8))} (h : List.Forall₂ Sized sections items) {start : Nat}
    (hbytes : bytes.Holds start (items.flatMap Prod.snd).flatten) :
    List.Forall₂ (fun s items => items.2.length = s.2.1 ∧ bytes.Holds s.2.2 items.2.flatten)
      (sectionStarts start sections) items := by
  induction h generalizing start with
  | nil => exact .nil
  | cons hsized _ ih =>
    rw [List.flatMap_cons, List.flatten_append] at hbytes
    exact .cons ⟨hsized.2.1, hbytes.left⟩ (ih (hsized.length_flatten ▸ hbytes.right))

theorem foldl_sections {sections : List (ItemType × Nat × Nat)} {items : List (ItemType × List (List UInt8))}
    (h : List.Forall₂ Sized sections items) (start : Nat) :
    sections.foldl (fun offset s => offset + s.2.1 * s.2.2) start =
      start + (items.flatMap Prod.snd).flatten.length := by
  induction h generalizing start with
  | nil => rfl
  | cons hsized _ ih =>
    rw [List.foldl_cons, ih, List.flatMap_cons, List.flatten_append, List.length_append, hsized.length_flatten,
      Nat.add_assoc]

/-- Written identifiers stand where the sections say, and the data begin behind
them. -/
theorem writeIds_spec (hpools : b.pools.Listed) {ids : List UInt8} (h : b.writeIds offsets = .ok ids) :
    b.dataOffset = Header.byteSize + ids.length ∧
      ∀ bytes : Bytes, bytes.size < extentBound → bytes.Holds Header.byteSize ids → b.Identified offsets bytes := by
  obtain ⟨fields, methods, handles, hfields, hmethods, hhandles, rfl, hsized⟩ := exists_idItems hpools h
  refine ⟨foldl_sections hsized Header.byteSize, fun bytes hbytes hheld => ?_⟩
  obtain _ | ⟨⟨n1, h1⟩, _ | ⟨⟨n2, h2⟩, _ | ⟨⟨n3, h3⟩, _ | ⟨⟨n4, h4⟩, _ | ⟨⟨n5, h5⟩, _ | ⟨⟨n6, h6⟩, _ | ⟨⟨n7, h7⟩,
    _ | ⟨⟨n8, h8⟩, _⟩⟩⟩⟩⟩⟩⟩⟩ := holds_sectionStarts hsized hheld
  exact {
    strings := idsStand hbytes (by decide) (fun i _ => Layout.length_stringId i) n1 h1
    types := idsStand hbytes (by decide) (fun i _ => Layout.length_typeId i) n2 h2
    protos := idsStand hbytes (by decide) (fun i _ => Layout.length_protoId i) n3 h3
    fields := ⟨_, hfields, idsStand hbytes (by decide) (fun i _ => Layout.length_fieldId i) n4 h4⟩
    methods := ⟨_, hmethods, idsStand hbytes (by decide) (fun i _ => Layout.length_methodId i) n5 h5⟩
    classes := idsStand hbytes (by decide) (fun i _ => Layout.length_classDefItem i) n6 h6
    callSites := idsStand hbytes (by decide) (fun i _ => Layout.length_callSiteId i) n7 h7
    handles := ⟨_, hhandles, idsStand hbytes (by decide) (fun i _ => Layout.length_handleId i) n8 h8⟩ }

end Blueprint

end Dalvik
