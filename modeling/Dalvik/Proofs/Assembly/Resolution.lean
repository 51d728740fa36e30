import Dalvik.Proofs.Assembly.Ranks
import Dalvik.Proofs.Assembly.InsertionOrder
import Dalvik.Proofs.Assembly.Room
import Dalvik.Proofs.StringData
import Dalvik.Proofs.Value.RoundTrip

/-!
# Indices lead back to what they were given to

In an image of a written file, each entry of the pools is found behind its
index, and nothing is found behind higher indices. This is shown kind by kind,
from strings on to what is made of them (`Opens.string_eq` and its like), and
put together in `resolves_write`.
-/

namespace Dalvik

/-- A call site with the elements of all annotations among its arguments in the
order of their names. -/
def CallSite.arranged (c : CallSite) : CallSite :=
  { c with arguments := Value.arrangedEach c.arguments }

/-! ## The identifier of a key -/

namespace IdsStand

variable {ι : Type} [Layout ι] {bytes : Bytes} {s : Section} {size : Nat} {ids : List ι}

theorem index_lt (h : IdsStand bytes s size ids) (hbytes : bytes.size < extentBound) (hsize : 0 < size) {i : Nat}
    {id : ι} (hid : ids[i]? = some id) : i < extentBound := by
  have hle := (h.holds hid).le_size
  have : i ≤ i * size := Nat.le_mul_of_pos_right i hsize
  omega

variable {α : Type} [BEq α] [Hashable α] [LawfulBEq α] {p : Pool α} {before : α → α → Prop}

theorem toNat_index (h : IdsStand bytes s size ids) (hp : p.Ranked before) (hlength : p.sortedKeys.length = ids.length)
    {key : α} (hkey : key ∈ p.keys) : (p.indexOrNone key).toNat = p.place key := by
  have hlt := hp.place_lt hkey
  rw [← hp.length_sortedKeys, hlength, ← h.size_eq] at hlt
  rw [hp.indexOrNone_eq hkey, UInt32.toNat_ofNat_of_lt' (Nat.lt_trans hlt s.size.toNat_lt)]

/-- Different keys have different indices. -/
theorem nodup_indices (h : IdsStand bytes s size ids) (hp : p.Ranked before)
    (hlength : p.sortedKeys.length = ids.length) {keys : List α} (hkeys : keys.Nodup)
    (hmem : ∀ key ∈ keys, key ∈ p.keys) : (keys.map p.indexOrNone).Nodup := by
  refine hkeys.map_on fun a ha b hb heq => hp.place_inj (hmem a ha) (hmem b hb) ?_
  rw [← h.toNat_index hp hlength (hmem a ha), ← h.toNat_index hp hlength (hmem b hb), heq]

/-- The identifier of a key is the one behind its index. -/
theorem exists_id (h : IdsStand bytes s size ids) (hbytes : bytes.size < extentBound) (hsize : 0 < size)
    (hp : p.Ranked before) {R : α → ι → Prop} (hids : List.Forall₂ R p.sortedKeys ids) {key : α}
    (hkey : key ∈ p.keys) :
    ∃ id, R key id ∧ ids[(p.indexOrNone key).toNat]? = some id ∧ (p.indexOrNone key).toNat < extentBound := by
  have hplace := List.getElem?_eq_some_iff.mp (hp.getElem?_place hkey)
  have hlt : p.place key < ids.length := hids.length_eq ▸ hplace.1
  have hR := hids.get hplace.1 hlt
  rw [List.get_eq_getElem, List.get_eq_getElem, hplace.2] at hR
  have hid := List.getElem?_eq_getElem hlt
  rw [h.toNat_index hp hids.length_eq hkey]
  exact ⟨_, hR, hid, h.index_lt hbytes hsize hid⟩

/-- The identifiers of a pool, each made from its key. -/
theorem exists_id_map (make : α → ι) (h : IdsStand bytes s size (p.sortedKeys.map make))
    (hbytes : bytes.size < extentBound) (hsize : 0 < size) (hp : p.Ranked before) {key : α} (hkey : key ∈ p.keys) :
    (p.sortedKeys.map make)[(p.indexOrNone key).toNat]? = some (make key) ∧
      (p.indexOrNone key).toNat < extentBound := by
  have hids : List.Forall₂ (fun key id => make key = id) p.sortedKeys (p.sortedKeys.map make) :=
    List.forall₂_map_right_iff.mpr (List.forall₂_same.mpr fun _ _ => rfl)
  obtain ⟨_, rfl, hid⟩ := h.exists_id hbytes hsize hp hids hkey
  exact hid

end IdsStand

/-- What has an index is in the pool, and the index is its index there. -/
theorem Pools.NumbersKeys.of_eq_ok {α : Type} [BEq α] [Hashable α] {p : Pool α} {number : α → Result UInt32}
    (h : NumbersKeys p number) {key : α} {index : UInt32} (hindex : number key = .ok index) :
    key ∈ p.keys ∧ index = p.indexOrNone key := by
  by_cases hkey : key ∈ p.keys
  · rw [(h key).1 hkey] at hindex
    exact ⟨hkey, (Except.ok.inj hindex).symm⟩
  · obtain ⟨e, he⟩ := (h key).2 hkey
    rw [he] at hindex
    cases hindex

/-! ## Items made from keys -/

/-- An item that is made from a key has this key. -/
theorem Blueprint.fst_of_bind {α κ : Type} {r : Result α} {key : κ} {form : α → List UInt8} {item : κ × List UInt8}
    (h : (do let a ← r; return (key, form a)) = Except.ok item) : item.1 = key := by
  obtain ⟨_, -, h⟩ := Result.bind_eq_ok h
  rw [← Except.ok.inj h]

namespace Blueprint.MadeStand

variable {α κ : Type} [BEq κ] [Hashable κ] [LawfulBEq κ] [LawfulHashable κ] {bytes : Bytes} {as : List α}
  {key : α → κ} {table : Std.HashMap κ Nat} (hbytes : bytes.size < extentBound)

section items

variable {make : α → Result (κ × List UInt8)} (h : MadeStand bytes (as.mapM make) table)
  (hnodup : (as.map key).Nodup) (hmake : ∀ a item, make a = .ok item → item.1 = key a)

omit [BEq κ] [Hashable κ] [LawfulBEq κ] [LawfulHashable κ] in
theorem keys_eq (hmake : ∀ a item, make a = .ok item → item.1 = key a) {items : List (κ × List UInt8)}
    (hitems : as.mapM make = .ok items) : items.map Prod.fst = as.map key := by
  rw [← List.forall₂_eq_eq_eq, List.forall₂_map_left_iff, List.forall₂_map_right_iff]
  exact (Result.forall₂_of_mapM hitems).flip.imp fun item a => hmake a item

include h hmake

/-- The table has nothing for keys without an item. -/
theorem offsetIn_eq_noOffset {k : κ} (hk : ∀ a ∈ as, key a ≠ k) : offsetIn table k = noOffset := by
  obtain ⟨items, hitems, hstands⟩ := h
  refine hstands.offsetIn_of_notMem ?_
  rw [keys_eq hmake hitems]
  rintro hmem
  obtain ⟨a, ha, rfl⟩ := List.mem_map.mp hmem
  exact hk a ha rfl

include hbytes hnodup

/-- The item made from a member stands where the table says. -/
theorem exists_item_of {a : α} (ha : a ∈ as) :
    ∃ item, make a = .ok item ∧ bytes.Holds (offsetIn table (key a)).toNat item.2 ∧
      offsetIn table (key a) ≠ noOffset ∧ (offsetIn table (key a)).toNat < extentBound := by
  obtain ⟨items, hitems, hstands⟩ := h
  rw [← keys_eq hmake hitems] at hnodup
  obtain ⟨⟨k, form⟩, hitem, hitemOf⟩ := exists_mem_right (Result.forall₂_of_mapM hitems) ha
  obtain rfl := hmake _ _ hitemOf
  exact ⟨_, hitemOf, hstands.holds hbytes hnodup hitem⟩

end items

section optional

variable {make : α → Result (Option (κ × List UInt8))} {items? : List (Option (κ × List UInt8))}
  (hmake : ∀ a item, make a = .ok (some item) → item.1 = key a)

omit [BEq κ] [Hashable κ] [LawfulBEq κ] [LawfulHashable κ] in
/-- The keys of the items that there are come in the order of the members. -/
theorem keys_sublist (hmake : ∀ a item, make a = .ok (some item) → item.1 = key a)
    (h : List.Forall₂ (fun a item? => make a = .ok item?) as items?) :
    ((items?.filterMap id).map Prod.fst).Sublist (as.map key) := by
  induction h with
  | nil => exact .slnil
  | @cons a item? as items? ha _ ih =>
    cases item? with
    | none => exact ih.cons _
    | some item =>
      have hfirst : (some item :: items?).filterMap id = item :: items?.filterMap id := rfl
      rw [hfirst, List.map_cons, List.map_cons, hmake a item ha]
      exact ih.cons_cons _

variable (h : MadeStand bytes (do return (← as.mapM make).filterMap id) table) (hnodup : (as.map key).Nodup)

include h hbytes hnodup hmake

/-- The item made from a member, if there is one, stands where the table says. -/
theorem exists_item? {a : α} (ha : a ∈ as) : ∃ item?, make a = .ok item? ∧
    (item? = none → offsetIn table (key a) = noOffset) ∧ ∀ item ∈ item?,
      bytes.Holds (offsetIn table (key a)).toNat item.2 ∧ offsetIn table (key a) ≠ noOffset ∧
        (offsetIn table (key a)).toNat < extentBound := by
  obtain ⟨items, hitems, hstands⟩ := h
  obtain ⟨items?, hmade, hitems⟩ := Result.bind_eq_ok hitems
  cases hitems
  have hall := Result.forall₂_of_mapM hmade
  obtain ⟨item?, hmem, hitem⟩ := exists_mem_right hall ha
  refine ⟨item?, hitem, fun hnone => ?_, fun item hsome => ?_⟩
  · refine hstands.offsetIn_of_notMem fun hkey => ?_
    obtain ⟨item, hin, hkey⟩ := List.mem_map.mp hkey
    obtain ⟨_, hin, rfl⟩ := List.mem_filterMap.mp hin
    obtain ⟨a', ha', hitem'⟩ := exists_mem_left hall hin
    obtain rfl : a' = a := List.inj_on_of_nodup_map hnodup ha' ha ((hmake a' item hitem').symm.trans hkey)
    rw [hitem, hnone] at hitem'
    cases hitem'
  · obtain rfl : item? = some item := hsome
    rw [← hmake a item hitem]
    exact hstands.holds hbytes (hnodup.sublist (keys_sublist hmake hall)) (List.mem_filterMap.mpr ⟨_, hmem, rfl⟩)

end optional

section keys

variable {keys : List κ} {make : κ → Result (κ × List UInt8)} (h : MadeStand bytes (keys.mapM make) table)
  (hnodup : keys.Nodup) (hmake : ∀ key item, make key = .ok item → item.1 = key)

include h hbytes hnodup hmake

/-- The item made from a key stands where the table says. -/
theorem exists_item {key : κ} (hkey : key ∈ keys) :
    ∃ item, make key = .ok item ∧ bytes.Holds (offsetIn table key).toNat item.2 ∧ offsetIn table key ≠ noOffset ∧
      (offsetIn table key).toNat < extentBound :=
  have hid : (keys.map id).Nodup := (List.map_id keys).symm ▸ hnodup
  exists_item_of hbytes h hid hmake hkey

/-- The offsets of items that take up room are in the order of the keys. -/
theorem offsetIn_pairwise
    (hne : ∀ items, keys.mapM make = .ok items → ∀ item ∈ items, item.2 ≠ []) :
    keys.Pairwise fun key key' => offsetIn table key < offsetIn table key' := by
  obtain ⟨items, hitems, hstands⟩ := h
  have hpairwise := hstands.offsetIn_pairwise hbytes
  have hkeys : items.map Prod.fst = keys.map id := keys_eq hmake hitems
  rw [hkeys, List.map_id] at hpairwise
  exact hpairwise hnodup (hne items hitems)

end keys

end Blueprint.MadeStand

namespace Blueprint.Opens

open Layout

variable {b : Blueprint} {t : DataTables} {image : Image} (h : b.Opens t image) (hr : b.pools.Ranked)

include h hr

/-! ## Strings and types -/

theorem string_index_lt {s : String} (hs : b.pools.Has (.string s)) :
    (b.pools.strings.indexOrNone s).toNat < extentBound :=
  (h.identified.strings.exists_id_map _ h.size_lt (by decide) hr.strings hs).2

theorem string_eq {s : String} (hs : b.pools.Has (.string s)) :
    image.string (b.pools.strings.indexOrNone s) = .ok s := by
  have hids := h.identified.strings
  obtain ⟨hid, -⟩ := hids.exists_id_map _ h.size_lt (by decide) hr.strings hs
  have hnodup : (b.stringItems.map Prod.fst).Nodup := by
    rw [stringItems, List.map_map]
    exact (List.map_id _).symm ▸ hr.strings.nodup
  obtain ⟨hheld, -, hlt⟩ := h.data.strings.holds h.size_lt hnodup
    (List.mem_map_of_mem (hr.strings.mem_sortedKeys.mpr hs))
  have hle := hheld.le_size
  have hlength : Utf16.length s < extentBound := by
    have := Mutf8.length_le_length_encode s
    have := h.size_lt
    simp only [Write.stringData, List.length_append] at hle
    omega
  have hread : image.readAt Read.smallUint ((b.sectionOf .stringId).offset.toNat +
      (b.pools.strings.indexOrNone s).toNat * StringId.byteSize) = .ok (offsetIn t.strings s) :=
    (Read.yields_smallUint hlt).at? (hids.holds hid)
  have hdata : image.readAt Read.stringData (offsetIn t.strings s).toNat = .ok s :=
    (Read.yields_stringData hlength).at? hheld
  rw [Image.string, h.stringIds, hids.sectionOffset_eq hid, Result.ok_bind, hread, Result.ok_bind,
    Image.reach_eq (by omega), Result.ok_bind, hdata]
  rfl

theorem type_index_lt {d : String} (hd : b.pools.Has (.type d)) :
    (b.pools.types.indexOrNone d).toNat < extentBound :=
  (h.identified.types.exists_id_map _ h.size_lt (by decide) hr.types hd).2

variable (hc : b.pools.Closed)

include hc

theorem type_eq {d : String} (hd : b.pools.Has (.type d)) : image.type (b.pools.types.indexOrNone d) = .ok d := by
  have hids := h.identified.types
  obtain ⟨hid, -⟩ := hids.exists_id_map _ h.size_lt (by decide) hr.types hd
  have hs := hc.string_of_type hd
  have hread : image.readAt Read.smallUint ((b.sectionOf .typeId).offset.toNat +
      (b.pools.types.indexOrNone d).toNat * TypeId.byteSize) = .ok (b.pools.strings.indexOrNone d) :=
    (Read.yields_smallUint (h.string_index_lt hr hs)).at? (hids.holds hid)
  rw [Image.type, h.typeIds, hids.sectionOffset_eq hid, Result.ok_bind, hread, Result.ok_bind, h.string_eq hr hs]

/-- A narrow index of a type. -/
theorem type_narrow_eq {d what : String} (hd : b.pools.Has (.type d)) {v : UInt16}
    (hv : narrow what (b.pools.types.indexOrNone d).toNat = .ok v) : image.type (UInt32.ofNat v.toNat) = .ok d := by
  rw [ofNat_of_narrow hv, h.type_eq hr hc hd]

/-- A type that may be missing. -/
theorem type?_eq {d? : Option String} (hd : ∀ d ∈ d?, b.pools.Has (.type d)) :
    image.type? ((d?.map b.pools.types.indexOrNone).getD noIndex) = .ok d? := by
  cases d? with
  | none => rfl
  | some d =>
    have hne := ne_noIndex_of_lt (h.type_index_lt hr (hd d rfl))
    rw [Option.map_some, Option.getD_some, Image.type?, if_neg hne, h.type_eq hr hc (hd d rfl)]
    rfl

omit hc in
/-- A string that may be missing. -/
theorem string?_eq {s? : Option String} (hs : ∀ s ∈ s?, b.pools.Has (.string s)) :
    image.string? ((s?.map b.pools.strings.indexOrNone).getD noIndex) = .ok s? := by
  cases s? with
  | none => rfl
  | some s =>
    have hne := ne_noIndex_of_lt (h.string_index_lt hr (hs s rfl))
    rw [Option.map_some, Option.getD_some, Image.string?, if_neg hne, h.string_eq hr (hs s rfl)]
    rfl

/-! ## Lists of types -/

theorem typeList_stands {ts : List String} (hts : b.pools.Has (.typeList ts)) :
    image.typeList (offsetIn t.typeLists ts).toNat = .ok ts ∧ (offsetIn t.typeLists ts).toNat < extentBound := by
  obtain ⟨item, hitem, hheld, hne, hlt⟩ := h.data.typeLists.exists_item h.size_lt hr.typeLists.nodup
    (fun _ _ => fst_of_bind) (hr.typeLists.mem_sortedKeys.mpr hts)
  obtain ⟨entries, hentries, hitem⟩ := Result.bind_eq_ok hitem
  cases hitem
  have hle := hheld.le_size
  have hpos : ∀ entry ∈ entries, Layout.write entry ≠ [] := fun entry _ =>
    List.length_pos_iff.mp (by simp [Layout.write])
  have hread : image.readAt (Layout.read : Read TypeList) (offsetIn t.typeLists ts).toNat =
      .ok (SizedList.ofItems entries) :=
    (reads_sizedList_of_holds hheld h.size_lt (fun entry _ => reads_typeEntry entry) hpos).at? hheld
  have hnonzero : (offsetIn t.typeLists ts).toNat ≠ 0 := fun hzero => hne (UInt32.toNat_inj.mp hzero)
  have htypes : entries.mapM (fun entry => image.type (UInt32.ofNat entry.type.toNat)) = .ok ts := by
    refine Result.mapM_of_forall₂ (forall₂_imp_of_mem (Result.forall₂_of_mapM hentries) ?_).flip
    intro d hd entry _ hentry
    obtain ⟨v, hv, rfl⟩ := Result.map_eq_ok hentry
    exact h.type_narrow_eq hr hc (hc.types_of_typeList hts hd) hv
  refine ⟨?_, hlt⟩
  rw [Image.typeList, if_neg hnonzero, Image.reach_eq (by omega), Result.ok_bind, hread]
  exact htypes

/-- The list that a prototype or a class refers to, if it has one. -/
theorem typeList_eq {ts : List String} (hts : ts ≠ [] → b.pools.Has (.typeList ts)) :
    image.typeList (if ts.isEmpty then noOffset else offsetIn t.typeLists ts).toNat = .ok ts ∧
      (if ts.isEmpty then noOffset else offsetIn t.typeLists ts).toNat < extentBound := by
  cases ts with
  | nil => exact ⟨rfl, show noOffset.toNat < extentBound by decide⟩
  | cons d ts => exact h.typeList_stands hr hc (hts (List.cons_ne_nil d ts))

/-! ## Members -/

/-- The identifier of a prototype, whose offsets and indices are small. -/
theorem exists_protoId {q : Prototype} (hq : b.pools.Has (.proto q)) :
    ∃ offset, image.protoIdOffset (b.pools.protos.indexOrNone q) = .ok offset ∧
      image.bytes.Holds offset (Layout.write (b.protoId t.toDataOffsets q)) ∧ Reads (b.protoId t.toDataOffsets q) ∧
      (b.protoId t.toDataOffsets q).returnType.toNat < extentBound ∧
      (b.protoId t.toDataOffsets q).parametersOffset.toNat < extentBound ∧
      image.typeList (b.protoId t.toDataOffsets q).parametersOffset.toNat = .ok q.parameters ∧
      image.type (b.protoId t.toDataOffsets q).returnType = .ok q.returnType := by
  have hids := h.identified.protos
  obtain ⟨hid, -⟩ := hids.exists_id_map _ h.size_lt (by decide) hr.protos hq
  have hparameters := h.typeList_eq hr hc (hc.typeList_of_proto hq)
  have hreturn := hc.returnType_of_proto hq
  have hlt := h.type_index_lt hr hreturn
  refine ⟨_, ?_, hids.holds hid, reads_protoId (h.string_index_lt hr (hc.shorty_of_proto hq)) hlt hparameters.2, hlt,
    hparameters.2, hparameters.1, h.type_eq hr hc hreturn⟩
  rw [Image.protoIdOffset, h.protoIds, hids.sectionOffset_eq hid]

theorem proto_eq {q : Prototype} (hq : b.pools.Has (.proto q)) :
    image.proto (b.pools.protos.indexOrNone q) = .ok q := by
  obtain ⟨offset, hoffset, hheld, hreads, -, -, hparameters, hreturn⟩ := h.exists_protoId hr hc hq
  have hread : image.readAt (Layout.read : Read ProtoId) offset = .ok (b.protoId t.toDataOffsets q) := hreads.at? hheld
  rw [Image.proto, hoffset, Result.ok_bind, hread, Result.ok_bind, hparameters, Result.ok_bind, hreturn]
  rfl

/-- The identifier of a field leads to its class, its name and its type. -/
theorem exists_fieldId {f : FieldSig} (hf : b.pools.Has (.field f)) :
    ∃ (offset : Nat) (id : FieldId), image.fieldIdOffset (b.pools.fields.indexOrNone f) = .ok offset ∧
      image.readAt (Layout.read : Read FieldId) offset = .ok id ∧
      image.type (UInt32.ofNat id.definingClass.toNat) = .ok f.definingClass ∧ image.string id.name = .ok f.name ∧
      image.type (UInt32.ofNat id.type.toNat) = .ok f.type := by
  obtain ⟨ids, hmade, hids⟩ := h.identified.fields
  obtain ⟨id, hmake, hid, -⟩ := hids.exists_id h.size_lt (by decide) hr.fields (Result.forall₂_of_mapM hmade) hf
  obtain ⟨definingClass, hclass, hmake⟩ := Result.bind_eq_ok hmake
  obtain ⟨type, htype, hmake⟩ := Result.bind_eq_ok hmake
  cases hmake
  have hname := hc.name_of_field hf
  refine ⟨_, _, ?_, hids.readAt_eq rfl hid (reads_fieldId (h.string_index_lt hr hname)),
    h.type_narrow_eq hr hc (hc.definingClass_of_field hf) hclass, h.string_eq hr hname,
    h.type_narrow_eq hr hc (hc.type_of_field hf) htype⟩
  rw [Image.fieldIdOffset, h.fieldIds, hids.sectionOffset_eq hid]

theorem field_eq {f : FieldSig} (hf : b.pools.Has (.field f)) :
    image.field (b.pools.fields.indexOrNone f) = .ok f := by
  obtain ⟨offset, id, hoffset, hread, hclass, hname, htype⟩ := h.exists_fieldId hr hc hf
  rw [Image.field, hoffset, Result.ok_bind, hread, Result.ok_bind, hclass, Result.ok_bind, hname, Result.ok_bind, htype]
  rfl

/-- The identifier of a method leads to its class, its prototype and its name. -/
theorem exists_methodId {m : MethodSig} (hm : b.pools.Has (.method m)) :
    ∃ (offset : Nat) (id : MethodId), image.methodIdOffset (b.pools.methods.indexOrNone m) = .ok offset ∧
      image.bytes.Holds offset (Layout.write id) ∧ id.name.toNat < extentBound ∧
      image.type (UInt32.ofNat id.definingClass.toNat) = .ok m.definingClass ∧
      UInt32.ofNat id.proto.toNat = b.pools.protos.indexOrNone m.proto ∧ image.string id.name = .ok m.name := by
  obtain ⟨ids, hmade, hids⟩ := h.identified.methods
  obtain ⟨id, hmake, hid, -⟩ := hids.exists_id h.size_lt (by decide) hr.methods (Result.forall₂_of_mapM hmade) hm
  obtain ⟨definingClass, hclass, hmake⟩ := Result.bind_eq_ok hmake
  obtain ⟨proto, hproto, hmake⟩ := Result.bind_eq_ok hmake
  cases hmake
  have hname := hc.name_of_method hm
  refine ⟨_, _, ?_, hids.holds hid, h.string_index_lt hr hname,
    h.type_narrow_eq hr hc (hc.definingClass_of_method hm) hclass, ofNat_of_narrow hproto, h.string_eq hr hname⟩
  rw [Image.methodIdOffset, h.methodIds, hids.sectionOffset_eq hid]

theorem method_eq {m : MethodSig} (hm : b.pools.Has (.method m)) :
    image.method (b.pools.methods.indexOrNone m) = .ok m := by
  obtain ⟨offset, id, hoffset, hheld, hlt, hclass, hproto, hname⟩ := h.exists_methodId hr hc hm
  have hread : image.readAt (Layout.read : Read MethodId) offset = .ok id := (reads_methodId hlt).at? hheld
  rw [Image.method, hoffset, Result.ok_bind, hread, Result.ok_bind, hproto, h.proto_eq hr hc (hc.proto_of_method hm),
    Result.ok_bind, hclass, Result.ok_bind, hname]
  rfl

theorem handle_eq {k : MethodHandle} (hk : b.pools.Has (.handle k)) :
    image.handle (b.pools.handles.indexOrNone k) = .ok k := by
  obtain ⟨ids, hmade, hids⟩ := h.identified.handles
  obtain ⟨id, hmake, hid, -⟩ := hids.exists_id h.size_lt (by decide) hr.handles (Result.forall₂_of_mapM hmade) hk
  obtain ⟨member, hmember, hmake⟩ := Result.bind_eq_ok hmake
  cases hmake
  have hcode : (UInt16.ofNat k.kind.code).toNat = k.kind.code :=
    UInt16.toNat_ofNat_of_lt' (Nat.lt_trans (SortKey.code_lt k.kind) (by decide))
  have hhas := hc.member_of_handle hk
  rw [Image.handle, h.methodHandles, hids.sectionOffset_eq hid, Result.ok_bind,
    hids.readAt_eq rfl hid (reads_handleId _), Result.ok_bind]
  dsimp only
  rw [hcode, HandleKind.ofCode_code, Result.ok_bind, ofNat_of_narrow hmember]
  obtain ⟨kind, member, hfits⟩ := k
  cases member with
  | field f =>
    have hfield : kind.accessesField = true := hfits
    dsimp only
    rw [if_pos hfield]
    show (image.field (b.pools.fields.indexOrNone f) >>= _) = _
    rw [h.field_eq hr hc hhas, Result.ok_bind]
    exact dif_pos hfits
  | method m =>
    have hfield : kind.accessesField = false := hfits
    dsimp only
    rw [hfield, if_neg Bool.false_ne_true]
    show (image.method (b.pools.methods.indexOrNone m) >>= _) = _
    rw [h.method_eq hr hc hhas, Result.ok_bind]
    exact dif_pos hfits

/-! ## Constants -/

/-- What the pools give an index, the image finds behind it. -/
theorem undoes : image.valueResolver.Undoes b.pools.numbering.toValueNumbering where
  string hi := by
    obtain ⟨hs, rfl⟩ := (hr.numbers hc).string.of_eq_ok hi
    exact ⟨h.string_index_lt hr hs, h.string_eq hr hs⟩
  type hi := by
    obtain ⟨hd, rfl⟩ := (hr.numbers hc).type.of_eq_ok hi
    exact ⟨h.type_index_lt hr hd, h.type_eq hr hc hd⟩
  field hi := by
    obtain ⟨hf, rfl⟩ := (hr.numbers hc).field.of_eq_ok hi
    exact h.field_eq hr hc hf
  method hi := by
    obtain ⟨hm, rfl⟩ := (hr.numbers hc).method.of_eq_ok hi
    exact h.method_eq hr hc hm
  proto hi := by
    obtain ⟨hq, rfl⟩ := (hr.numbers hc).proto.of_eq_ok hi
    exact h.proto_eq hr hc hq
  handle hi := by
    obtain ⟨hk, rfl⟩ := (hr.numbers hc).handle.of_eq_ok hi
    exact h.handle_eq hr hc hk

/-- The indices of strings are in the order of the strings. -/
theorem ordered : b.pools.numbering.toValueNumbering.Ordered := by
  intro s s' i j hi hj
  obtain ⟨hs, rfl⟩ := (hr.numbers hc).string.of_eq_ok hi
  obtain ⟨hs', rfl⟩ := (hr.numbers hc).string.of_eq_ok hj
  have hlength : b.pools.strings.sortedKeys.length = (b.stringIds t.toDataOffsets).length := (List.length_map _).symm
  rw [UInt32.le_iff_toNat_le, h.identified.strings.toNat_index hr.strings hlength hs,
    h.identified.strings.toNat_index hr.strings hlength hs', ← Nat.not_lt, hr.string_lt_iff hs' hs]
  refine ⟨fun hlt => ?_, Std.OrientedCmp.not_lt_of_isLE⟩
  by_contra hle
  exact hlt (Std.OrientedCmp.lt_of_not_isLE hle)

/-- The list of constants of a class or of a call site. -/
theorem array_eq {vs : List Value} (hvs : b.pools.Has (.array vs)) :
    image.readAt (Value.decodeArray image.valueResolver) (offsetIn t.arrays vs).toNat =
      .ok (Value.arrangedEach vs) ∧ (offsetIn t.arrays vs).toNat < image.bytes.size ∧
      offsetIn t.arrays vs ≠ noOffset := by
  obtain ⟨item, hitem, hheld, hne, -⟩ := h.data.arrays.exists_item h.size_lt hr.arrays.nodup
    (fun _ _ => fst_of_bind) (hr.arrays.mem_sortedKeys.mpr hvs)
  obtain ⟨form, hform, hitem⟩ := Result.bind_eq_ok hitem
  cases hitem
  have hle : (offsetIn t.arrays vs).toNat + form.length ≤ image.bytes.size := hheld.le_size
  have hsize := h.size_lt
  have hpos : 0 < form.length := by
    obtain ⟨body, -, hform⟩ := Result.bind_eq_ok hform
    cases hform
    exact List.length_pos_iff.mpr (List.append_ne_nil_of_left_ne_nil (Leb128.encodeUnsigned_ne_nil _) _)
  exact ⟨(Value.yields_decodeArray (h.undoes hr hc) (h.ordered hr hc) hform (by omega)).at? hheld, by omega, hne⟩

theorem callSite_eq {c : CallSite} (hcs : b.pools.Has (.callSite c)) :
    image.callSite (b.pools.callSites.indexOrNone c) = .ok c.arranged := by
  have hids := h.identified.callSites
  obtain ⟨hid, -⟩ := hids.exists_id_map _ h.size_lt (by decide) hr.callSites hcs
  obtain ⟨hvalues, hlt, -⟩ := h.array_eq hr hc (hc.array_of_callSite hcs)
  have hread : image.readAt Read.smallUint ((b.sectionOf .callSiteId).offset.toNat +
      (b.pools.callSites.indexOrNone c).toNat * CallSiteId.byteSize) = .ok (offsetIn t.arrays c.values) :=
    (Read.yields_smallUint (Nat.lt_trans hlt h.size_lt)).at? (hids.holds hid)
  rw [Image.callSite, h.callSites, hids.sectionOffset_eq hid, Result.ok_bind, hread, Result.ok_bind,
    Image.reach_eq (Nat.le_of_lt hlt), Result.ok_bind, hvalues]
  rfl

end Blueprint.Opens

/-! ## Resolution -/

/-- Each key of a pool is found, in a given form, behind its index, and nothing
is found behind indices that are not below the size of the pool. -/
structure Pool.Resolved {α : Type} [BEq α] [Hashable α] (p : Pool α) (number : α → Result UInt32)
    (find : UInt32 → Result α) (form : α → α) : Prop where
  finds : ∀ {key : α}, key ∈ p.keys → ∃ index, number key = .ok index ∧ find index = .ok (form key)
  fails : ∀ {index : UInt32}, p.size ≤ index.toNat → (find index).Fails

/-- The image resolves the indices that the pools give. -/
structure Image.Resolves (image : Image) (p : Pools) : Prop where
  string : p.strings.Resolved p.numbering.string image.string id
  type : p.types.Resolved p.numbering.type image.type id
  field : p.fields.Resolved p.numbering.field image.field id
  method : p.methods.Resolved p.numbering.method image.method id
  proto : p.protos.Resolved p.numbering.proto image.proto id
  handle : p.handles.Resolved p.numbering.handle image.handle id
  callSite : p.callSites.Resolved p.numbering.callSite image.callSite CallSite.arranged

namespace Blueprint.Opens

variable {b : Blueprint} {t : DataTables} {image : Image}

theorem resolves (h : b.Opens t image) (hr : b.pools.Ranked) (hc : b.pools.Closed) : image.Resolves b.pools := by
  have hn := hr.numbers hc
  refine ⟨⟨fun hs => ⟨_, (hn.string _).1 hs, h.string_eq hr hs⟩, fun hsize => ?_⟩,
    ⟨fun hd => ⟨_, (hn.type _).1 hd, h.type_eq hr hc hd⟩, fun hsize => ?_⟩,
    ⟨fun hf => ⟨_, (hn.field _).1 hf, h.field_eq hr hc hf⟩, fun hsize => ?_⟩,
    ⟨fun hm => ⟨_, (hn.method _).1 hm, h.method_eq hr hc hm⟩, fun hsize => ?_⟩,
    ⟨fun hq => ⟨_, (hn.proto _).1 hq, h.proto_eq hr hc hq⟩, fun hsize => ?_⟩,
    ⟨fun hk => ⟨_, (hn.handle _).1 hk, h.handle_eq hr hc hk⟩, fun hsize => ?_⟩,
    ⟨fun hcs => ⟨_, (hn.callSite _).1 hcs, h.callSite_eq hr hc hcs⟩, fun hsize => ?_⟩⟩
  · rw [← hr.strings.length_sortedKeys, ← List.length_map] at hsize
    rw [Image.string, h.stringIds]
    exact (h.identified.strings.sectionOffset_fails hsize ..).bind _
  · rw [← hr.types.length_sortedKeys, ← List.length_map] at hsize
    rw [Image.type, h.typeIds]
    exact (h.identified.types.sectionOffset_fails hsize ..).bind _
  · obtain ⟨ids, hmade, hids⟩ := h.identified.fields
    rw [← hr.fields.length_sortedKeys, (Result.forall₂_of_mapM hmade).length_eq] at hsize
    rw [Image.field, Image.fieldIdOffset, h.fieldIds]
    exact (hids.sectionOffset_fails hsize ..).bind _
  · obtain ⟨ids, hmade, hids⟩ := h.identified.methods
    rw [← hr.methods.length_sortedKeys, (Result.forall₂_of_mapM hmade).length_eq] at hsize
    rw [Image.method, Image.methodIdOffset, h.methodIds]
    exact (hids.sectionOffset_fails hsize ..).bind _
  · rw [← hr.protos.length_sortedKeys, ← List.length_map] at hsize
    rw [Image.proto, Image.protoIdOffset, h.protoIds]
    exact (h.identified.protos.sectionOffset_fails hsize ..).bind _
  · obtain ⟨ids, hmade, hids⟩ := h.identified.handles
    rw [← hr.handles.length_sortedKeys, (Result.forall₂_of_mapM hmade).length_eq] at hsize
    rw [Image.handle, h.methodHandles]
    exact (hids.sectionOffset_fails hsize ..).bind _
  · rw [← hr.callSites.length_sortedKeys, ← List.length_map] at hsize
    rw [Image.callSite, h.callSites]
    exact (h.identified.callSites.sectionOffset_fails hsize ..).bind _

end Blueprint.Opens

namespace Assembly

/-- After any requests, a finalized assembly that is written as fewer bytes than
`extentBound` gives a file whose image resolves all indices of the assembly. -/
theorem resolves_write (opcodes : Opcodes) (requests : List Request) {a : Assembly} {bytes : Bytes}
    (hfinal : finalize.on (gather opcodes requests) = (.ok (), a)) (hwrite : (write.on a).1 = .ok bytes)
    (hsize : bytes.size < extentBound) : ∃ image, Image.ofBytes bytes = .ok image ∧ image.Resolves a.pools := by
  have h := gathered_gather opcodes requests
  rw [on_finalize h.growing] at hfinal
  cases hfinal
  have hr : (gather opcodes requests).finalized.pools.Ranked := h.growing.ranked_finalized
  rw [on_write hr] at hwrite
  obtain ⟨t, image, himage, -, hopens⟩ := Blueprint.opens_write hr hwrite hsize
  exact ⟨image, himage, hopens.resolves hr h.closed.finalized⟩

/-- A file of one field, with the strings and types that it is made of, is written. -/
theorem exists_write_field : ∃ a bytes,
    finalize.on (gather .standard [.field ⟨"LA;", "f", "I"⟩]) = (.ok (), a) ∧ (write.on a).1 = .ok bytes ∧
      bytes.size < extentBound := by
  have h := gathered_gather .standard [.field ⟨"LA;", "f", "I"⟩]
  obtain ⟨a, ha⟩ : ∃ a, (gather .standard [.field ⟨"LA;", "f", "I"⟩]).finalized = a := ⟨_, rfl⟩
  have hr : a.pools.Ranked := ha ▸ h.growing.ranked_finalized
  have hhas : ∀ e, a.pools.Has e → e ∈ Entry.ofField ⟨"LA;", "f", "I"⟩ := fun e he => by
    rw [← ha, finalized, Pools.has_finalized, has_gather .standard (by decide)] at he
    simpa [Request.entries] using he
  have hclasses : a.blueprint.classes = [] := by
    rw [← ha]
    show ClassOrder.arrange (gather .standard _).classes.toList = []
    rw [classes_gather .standard (by decide)]
    exact List.perm_nil.mp (ClassOrder.arrange_perm [])
  obtain ⟨bytes, hwrite, hle⟩ :=
    Blueprint.exists_write_of_no_classes (b := a.blueprint) hr (ha ▸ h.closed.finalized) hclasses hhas (by decide)
  have hroom : Blueprint.fileRoom (Entry.ofField ⟨"LA;", "f", "I"⟩) [] < extentBound := by decide +kernel
  exact ⟨a, bytes, ha ▸ on_finalize h.growing, (congrArg Prod.fst (on_write hr)).trans hwrite,
    Nat.lt_of_le_of_lt hle hroom⟩

/-- A field, with the strings and types that it is made of. -/
theorem resolves_write_field :
    ∃ a bytes image, finalize.on (gather .standard [.field ⟨"LA;", "f", "I"⟩]) = (.ok (), a) ∧
      (write.on a).1 = .ok bytes ∧ bytes.size < extentBound ∧ Image.ofBytes bytes = .ok image ∧
      image.Resolves a.pools := by
  obtain ⟨a, bytes, hfinal, hwritten, hsize⟩ := exists_write_field
  obtain ⟨image, himage, hresolves⟩ := resolves_write .standard [.field ⟨"LA;", "f", "I"⟩] hfinal hwritten hsize
  exact ⟨a, bytes, image, hfinal, hwritten, hsize, himage, hresolves⟩

end Assembly

end Dalvik
