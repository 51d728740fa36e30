import Dalvik.Proofs.Assembly.Finalized
import Dalvik.Proofs.Assembly.Resolution

/-!
# Written files are consistent

`Assembly.write_consistent`: the sections of a written file stand one behind the other
from its start to its end, header and map tell of them what they are, and the check
values of the header stand for the bytes behind them.

The header and the identifiers are packed without gaps, the data are laid out by the
draft, and the map is put behind them (`Parts.runs`); each statement about a whole file
is put together from these.
-/

namespace Dalvik

/-! ## Check values -/

namespace Header

/-- What stands behind the signature. -/
def behindSignature (h : Header) : List UInt8 :=
  Write.uint h.fileSize ++ Write.uint h.headerSize ++ Write.uint h.endianTag ++ Layout.write h.link ++
    Write.uint h.mapOffset ++ Layout.write h.stringIds ++ Layout.write h.typeIds ++ Layout.write h.protoIds ++
    Layout.write h.fieldIds ++ Layout.write h.methodIds ++ Layout.write h.classDefs ++ Layout.write h.data

theorem write_eq (h : Header) :
    h.write = (h.magic.toList ++ Write.uint h.checksum) ++ (h.signature.toList ++ h.behindSignature) := by
  simp only [write, behindSignature, List.append_assoc]

/-- The check values do not stand behind the signature. -/
theorem behindSignature_update (h : Header) (checksum : UInt32) (signature : Vector UInt8 20) :
    { h with checksum, signature }.behindSignature = h.behindSignature := rfl

theorem drop_write_checkedFrom (h : Header) :
    h.write.drop Blueprint.checkedFrom = h.signature.toList ++ h.behindSignature := by
  rw [write_eq, List.drop_left']
  simp [Blueprint.checkedFrom]

theorem drop_write_signedFrom (h : Header) : h.write.drop Blueprint.signedFrom = h.behindSignature := by
  have hsum : Blueprint.signedFrom = Blueprint.checkedFrom + 20 := rfl
  rw [hsum, ← List.drop_drop, drop_write_checkedFrom, List.drop_left']
  simp

/-- The identifier sections that the header tells of. -/
def idSections (h : Header) : List (ItemType × Section) :=
  [(.stringId, h.stringIds), (.typeId, h.typeIds), (.protoId, h.protoIds), (.fieldId, h.fieldIds),
    (.methodId, h.methodIds), (.classDef, h.classDefs)]

end Header

namespace Blueprint

theorem behindSignature_sealHeader (header : Header) (body : List UInt8) :
    (sealHeader header body).behindSignature = header.behindSignature := by
  unfold sealHeader
  exact Header.behindSignature_update header _ _

theorem sealHeader_signature (header : Header) (body : List UInt8) : (sealHeader header body).signature.toList =
    Sha1.digest ((sealHeader header body).write.drop signedFrom ++ body) := by
  rw [Header.drop_write_signedFrom, behindSignature_sealHeader, ← Header.drop_write_signedFrom]
  unfold sealHeader
  dsimp only
  rw [Vector.toList_mk]

theorem sealHeader_checksum (header : Header) (body : List UInt8) : (sealHeader header body).checksum =
    Adler32.checksum ((sealHeader header body).write.drop checkedFrom ++ body) := by
  rw [Header.drop_write_checkedFrom, behindSignature_sealHeader]
  unfold sealHeader
  dsimp only
  rw [Header.drop_write_checkedFrom]
  rfl

end Blueprint

/-! ## What a map lists -/

namespace Run

/-- What a map says of a section: nothing if it is empty, else its type, how many items
it has, and where the first of them is. -/
def listed (s : ItemType × Run) : Option (UInt16 × Nat × Nat) :=
  s.2.head?.map fun first => (s.1.typeCode, s.2.length, first.1)

/-- The types that are listed are among those of the sections, in their order. -/
theorem types_listed_sublist (sections : List (ItemType × Run)) :
    ((sections.filterMap listed).map Prod.fst).Sublist ((sections.map Prod.fst).map ItemType.typeCode) := by
  induction sections with
  | nil => exact .slnil
  | cons s sections ih =>
    obtain ⟨type, run⟩ := s
    cases run with
    | nil => exact ih.cons _
    | cons p run => exact ih.cons_cons _

theorem heads_sublist (sections : List (ItemType × Run)) :
    (sections.filterMap fun s => s.2.head?).Sublist (sections.flatMap Prod.snd) := by
  induction sections with
  | nil => exact .slnil
  | cons s sections ih =>
    obtain ⟨type, run⟩ := s
    cases run with
    | nil => exact ih
    | cons p run => exact (ih.trans (List.sublist_append_right run _)).cons_cons p

theorem offsets_listed (sections : List (ItemType × Run)) :
    (sections.filterMap listed).map (fun entry => entry.2.2) =
      (sections.filterMap fun s => s.2.head?).map Prod.fst := by
  rw [List.map_filterMap, List.map_filterMap]
  refine List.filterMap_congr fun s _ => ?_
  rw [listed, Option.map_map]
  rfl

/-- Sections that follow each other are listed with offsets that go up. -/
theorem offsets_listed_pairwise {sections : List (ItemType × Run)} {first last : Nat}
    (h : Between first (sections.flatMap Prod.snd) last) (hne : ∀ s ∈ sections, ∀ p ∈ s.2, p.2 ≠ []) :
    ((sections.filterMap listed).map fun entry => entry.2.2).Pairwise (· < ·) := by
  have hheads := heads_sublist sections
  rw [offsets_listed, List.pairwise_map]
  refine (h.of_sublist hheads).pairwise_lt fun p hp => ?_
  obtain ⟨s, hs, hp⟩ := List.mem_flatMap.mp (hheads.subset hp)
  exact hne s hs p hp

end Run

namespace MapItem

/-- Type, number of items and offset, as numbers. -/
def numbers (item : MapItem) : UInt16 × Nat × Nat :=
  (item.type, item.size.toNat, item.offset.toNat)

end MapItem

namespace Draft

/-- Numbers that fit into the map are listed as they are. -/
theorem map_numbers_mapEntries {sections : List (ItemType × Run)} {size : Nat} (hsize : size < UInt32.size)
    (hle : ∀ s ∈ sections, s.2.length + (s.2.head?.map Prod.fst).getD 0 ≤ size) :
    (mapEntries (sections.map fun s => summary s.1 s.2)).map MapItem.numbers = sections.filterMap Run.listed := by
  induction sections with
  | nil => rfl
  | cons s sections ih =>
    obtain ⟨type, run⟩ := s
    obtain ⟨hs, hle⟩ := List.forall_mem_cons.mp hle
    rw [List.map_cons, mapEntries_cons, List.map_append, ih hle]
    cases run with
    | nil => rfl
    | cons p run =>
      have hs : (p :: run).length + p.1 ≤ size := hs
      have hcount : (UInt32.ofNat (p :: run).length).toNat = (p :: run).length := UInt32.toNat_ofNat_of_lt' (by omega)
      have hoffset : (UInt32.ofNat p.1).toNat = p.1 := UInt32.toNat_ofNat_of_lt' (by omega)
      have hentry : (mapEntry type (p :: run).length p.1).map MapItem.numbers =
          [(type.typeCode, (p :: run).length, p.1)] := by
        simp only [mapEntry, List.length_cons, Nat.succ_ne_zero, if_false, List.map_cons, List.map_nil,
          MapItem.numbers]
        rw [← List.length_cons (a := p), hcount, hoffset]
      exact congrArg (· ++ sections.filterMap Run.listed) hentry

/-- What is listed of sections only depends on their kinds, how many items they have, and
where the first of them is. -/
theorem mapEntries_eq_of_forall₂ {starts : List (ItemType × Nat × Nat)} {sections : List (ItemType × Run)}
    (h : List.Forall₂ (fun s t => t.1 = s.1 ∧ t.2.length = s.2.1 ∧ ∀ p ∈ t.2.head?, p.1 = s.2.2) starts sections) :
    mapEntries (sections.map fun s => summary s.1 s.2) = mapEntries starts := by
  induction h with
  | nil => rfl
  | @cons s t starts sections hst _ ih =>
    obtain ⟨type, run⟩ := t
    obtain ⟨rfl, hlength, hfirst⟩ := hst
    rw [List.map_cons, mapEntries_cons, mapEntries_cons, ih, ← hlength]
    cases run with
    | nil => rfl
    | cons p run => rw [← hfirst p rfl]; rfl

end Draft

namespace Blueprint

/-- The kinds of the sections of a file, in the order in which they stand. -/
def fileOrder : List ItemType :=
  [.header, .stringId, .typeId, .protoId, .fieldId, .methodId, .classDef, .callSiteId, .methodHandle] ++ dataOrder ++
    [.mapList]

/-- The sections of a file consist of its header, the identifiers and the data of a
blueprint, and its map. -/
structure FileOf (b : Blueprint) (t : DataTables) (header : Header) (map : MapList) (sections : List (ItemType × Run)) :
    Prop where
  header : Run.Of sections .header [header.write]
  strings : Run.Of sections .stringId ((b.stringIds t.toDataOffsets).map Layout.write)
  types : Run.Of sections .typeId (b.typeIds.map Layout.write)
  protos : Run.Of sections .protoId ((b.pools.protos.sortedKeys.map (b.protoId t.toDataOffsets)).map Layout.write)
  fields : ∃ ids, b.pools.fields.sortedKeys.mapM b.fieldId = .ok ids ∧
    Run.Of sections .fieldId (ids.map Layout.write)
  methods : ∃ ids, b.pools.methods.sortedKeys.mapM b.methodId = .ok ids ∧
    Run.Of sections .methodId (ids.map Layout.write)
  classes : Run.Of sections .classDef ((b.classes.map (b.classDefItem t.toDataOffsets)).map Layout.write)
  callSites : Run.Of sections .callSiteId ((b.callSiteIds t.toDataOffsets).map Layout.write)
  handles : ∃ ids, b.pools.handles.sortedKeys.mapM b.handleId = .ok ids ∧
    Run.Of sections .methodHandle (ids.map Layout.write)
  data : b.DataOf t sections
  map : Run.Of sections .mapList [Layout.write map]

/-- A file consists of sections, header and map describe them, and the check values are
those of the bytes. -/
structure Consistent (b : Blueprint) (bytes : Bytes) (t : DataTables) (header : Header) (map : MapList)
    (sections : List (ItemType × Run)) : Prop where
  order : sections.map Prod.fst = fileOrder
  consists : b.FileOf t header map sections
  holds : ∀ s ∈ sections, ∀ p ∈ s.2, bytes.Holds p.1 p.2
  between : Run.Between 0 (sections.flatMap Prod.snd) bytes.size
  aligned : ∀ s ∈ sections, ∀ p ∈ s.2, p.1 % s.1.alignment = 0
  header_read : Header.read.at? bytes 0 = .ok header
  fileSize : header.fileSize.toNat = bytes.size
  dataEnd : header.data.offset.toNat + header.data.size.toNat = bytes.size
  map_read : (Layout.read : Read MapList).at? bytes header.mapOffset.toNat = .ok map
  /-- The map lists the sections that are not empty, in their order. -/
  listed : map.items.map MapItem.numbers = sections.filterMap Run.listed
  types_nodup : (map.items.map MapItem.type).Nodup
  ascending : map.items.Pairwise fun item item' => item.offset < item'.offset
  /-- A section of identifiers is described in the header as in the map, or as nothing. -/
  ids : ∀ s ∈ header.idSections, ∃ run, (s.1, run) ∈ sections ∧ (run = [] → s.2.size = 0 ∧ s.2.offset = 0) ∧
    (run ≠ [] → ∃ item ∈ map.items, item.type = s.1.typeCode ∧ s.2.size = item.size ∧ s.2.offset = item.offset)
  signature : header.signature.toList = Sha1.digest (bytes.toList.drop 32)
  checksum : header.checksum = Adler32.checksum (bytes.toList.drop 12)

/-! ## The sections of a file -/

/-- Packed sections begin where the sections of the blueprint start. -/
theorem forall₂_packedSections {sections : List (ItemType × Nat × Nat)} {items : List (ItemType × List (List UInt8))}
    (h : List.Forall₂ Sized sections items) (start : Nat) :
    List.Forall₂ (fun s t => t.1 = s.1 ∧ t.2.length = s.2.1 ∧ ∀ p ∈ t.2.head?, p.1 = s.2.2)
      (sectionStarts start sections) (Run.packedSections start items) := by
  induction h generalizing start with
  | nil => exact .nil
  | @cons s t sections items hsized _ ih =>
    have hlength : (Run.packed start t.2).length = s.2.1 := by
      rw [← List.length_map Prod.snd, Run.map_snd_packed, hsized.2.1]
    refine .cons ⟨hsized.1, hlength, fun p hp => ?_⟩ (hsized.length_flatten ▸ ih _)
    cases hforms : t.2 with
    | nil => rw [hforms] at hp; cases hp
    | cons form forms => rw [hforms] at hp; cases hp; rfl

/-- The section of a kind is that which starts behind the sections before it. -/
theorem exists_sectionStart (b : Blueprint) {type : ItemType} (h : type ∈ b.idSections.map Prod.fst) :
    ∃ count start, (type, count, start) ∈ sectionStarts Header.byteSize b.idSections ∧
      b.sectionOf type = sectionFrom count start := by
  simp only [idSections, List.map_cons, List.map_nil, List.mem_cons, List.not_mem_nil, or_false] at h
  rcases h with rfl | rfl | rfl | rfl | rfl | rfl | rfl | rfl <;>
    exact ⟨_, _, by simp [idSections, sectionStarts], rfl⟩

namespace Parts

variable {b : Blueprint} (parts : b.Parts)

/-- The map of the file. -/
def map : MapList :=
  SizedList.ofItems parts.mapItems

/-- The sections of the whole file, from the forms of its identifiers and the sections of
its data. -/
def runs (items : List (ItemType × List (List UInt8))) (data : List (ItemType × Run)) : List (ItemType × Run) :=
  (.header, [(0, parts.header.write)]) :: (Run.packedSections Header.byteSize items ++ data ++
    [(.mapList, [(parts.mapOffset, Layout.write parts.map)])])

theorem header_idSections : parts.header.idSections =
    [ItemType.stringId, .typeId, .protoId, .fieldId, .methodId, .classDef].map fun type =>
      (type, b.sectionOf type) := by
  simp only [header, Header.idSections, sealHeader, Blueprint.header, List.map_cons, List.map_nil]

theorem header_data :
    parts.header.data = ⟨UInt32.ofNat parts.out.length, UInt32.ofNat b.dataOffset⟩ := by
  simp only [header, sealHeader, Blueprint.header]

theorem size_file_eq_mapOffset : parts.file.size = parts.mapOffset + (Layout.write parts.map).length := by
  rw [size_file_eq]
  exact Output.append_position _

section runs

variable {items : List (ItemType × List (List UInt8))} {data : List (ItemType × Run)}

theorem forall_mem_runs {P : ItemType × Run → Prop} (hheader : P (.header, [(0, parts.header.write)]))
    (hids : ∀ s ∈ Run.packedSections Header.byteSize items, P s) (hdata : ∀ s ∈ data, P s)
    (hmap : P (.mapList, [(parts.mapOffset, Layout.write parts.map)])) : ∀ s ∈ parts.runs items data, P s := by
  rw [runs, List.forall_mem_cons, List.forall_mem_append, List.forall_mem_append, List.forall_mem_singleton]
  exact ⟨hheader, ⟨hids, hdata⟩, hmap⟩

variable (hsized : List.Forall₂ Sized b.idSections items) (hids : parts.ids = (items.flatMap Prod.snd).flatten)
  (hlaid : parts.data.Laid b.dataOffset data)

include hids hlaid

/-- The sections follow each other from the start of the file to its end. -/
theorem between_runs : Run.Between 0 ((parts.runs items data).flatMap Prod.snd) parts.file.size := by
  have hheader : Run.Between 0 [(0, parts.header.write)] Header.byteSize :=
    ⟨Nat.le_refl _, Nat.le_of_eq ((Nat.zero_add _).trans (Header.length_write _))⟩
  have hpacked := Run.between_packed Header.byteSize (items.flatMap Prod.snd)
  rw [← hids, ← parts.dataOffset_eq, ← Run.flatMap_packedSections] at hpacked
  have hmap : Run.Between parts.data.out.position [(parts.mapOffset, Layout.write parts.map)] parts.file.size :=
    ⟨Output.Extends.position_le (.align 4), Nat.le_of_eq parts.size_file_eq_mapOffset.symm⟩
  rw [runs, List.flatMap_cons, List.flatMap_append, List.flatMap_append, List.flatMap_singleton]
  exact hheader.append ((hpacked.append hlaid.between).append hmap)

theorem holds_runs : ∀ s ∈ parts.runs items data, ∀ p ∈ s.2, parts.file.Holds p.1 p.2 := by
  refine parts.forall_mem_runs ?_ (fun s hs p hp => ?_) ?_ ?_
  · exact List.forall_mem_singleton.mpr parts.holds_header
  · refine Run.holds_packed (hids ▸ parts.holds_ids) p ?_
    rw [← Run.flatMap_packedSections]
    exact List.mem_flatMap.mpr ⟨s, hs, hp⟩
  · exact hlaid.holds _ (parts.out_in.of_extends parts.out_extends)
  · exact List.forall_mem_singleton.mpr parts.holds_map

omit hids in
include hsized in
theorem aligned_runs : ∀ s ∈ parts.runs items data, ∀ p ∈ s.2, p.1 % s.1.alignment = 0 := by
  refine parts.forall_mem_runs ?_ (fun s hs p _ => ?_) hlaid.aligned ?_
  · exact List.forall_mem_singleton.mpr (Nat.zero_mod _)
  · have hone : ∀ type ∈ b.idSections.map Prod.fst, type.alignment = 1 := by simp [idSections, ItemType.alignment]
    have hkind : s.1 ∈ b.idSections.map Prod.fst := by
      rw [← map_fst_of_sized hsized, ← Run.map_fst_packedSections Header.byteSize]
      exact List.mem_map_of_mem hs
    rw [hone _ hkind, Nat.mod_one]
  · exact List.forall_mem_singleton.mpr (Output.align_position_mod (by decide))

omit hids in
include hsized in
theorem occupied_runs : ∀ s ∈ parts.runs items data, ∀ p ∈ s.2, p.2 ≠ [] := by
  refine parts.forall_mem_runs ?_ (fun s hs p hp => ?_) hlaid.occupied ?_
  · refine List.forall_mem_singleton.mpr (List.length_pos_iff.mp ?_)
    rw [Header.length_write]
    decide
  · have hmem : p.2 ∈ items.flatMap Prod.snd := by
      rw [← Run.map_snd_packed Header.byteSize (items.flatMap Prod.snd), ← Run.flatMap_packedSections]
      exact List.mem_map_of_mem (List.mem_flatMap.mpr ⟨s, hs, hp⟩)
    obtain ⟨t, ht, hform⟩ := List.mem_flatMap.mp hmem
    obtain ⟨u, hu, hsized⟩ := exists_mem_left hsized ht
    refine List.length_pos_iff.mp ?_
    rw [hsized.2.2 _ hform]
    exact idSections_pos b u hu
  · exact List.forall_mem_singleton.mpr (Layout.write_sizedList_ne_nil _)

omit hids in
include hsized in
/-- The map lists the sections of the file. -/
theorem mapItems_eq_runs :
    parts.mapItems = Draft.mapEntries ((parts.runs items data).map fun s => Draft.summary s.1 s.2) := by
  have hids := Draft.mapEntries_eq_of_forall₂ (forall₂_packedSections hsized Header.byteSize)
  rw [parts.mapItems_eq hlaid, runs]
  simp only [List.cons_append, List.map_cons, List.map_append, Draft.mapEntries_cons, Draft.mapEntries_append, hids]
  rfl

include hsized

/-- The numbers of the map are those of the sections. -/
theorem numbers_mapItems (hsize : parts.file.size < extentBound) :
    parts.mapItems.map MapItem.numbers = (parts.runs items data).filterMap Run.listed := by
  have hbetween := parts.between_runs hids hlaid
  have hoccupied := parts.occupied_runs hsized hlaid
  rw [parts.mapItems_eq_runs hsized hlaid]
  exact Draft.map_numbers_mapEntries (Nat.lt_trans hsize (by decide))
    fun s hs => (hbetween.of_mem hs).length_add_head_le (hoccupied s hs)

omit hids hlaid in
theorem map_fst_runs (horder : data.map Prod.fst = dataOrder) :
    (parts.runs items data).map Prod.fst = fileOrder := by
  rw [runs, List.map_cons, List.map_append, List.map_append, Run.map_fst_packedSections, map_fst_of_sized hsized,
    horder]
  rfl

omit hids in
/-- The header tells of a section of identifiers what the map does, if it is not empty. -/
theorem exists_described : ∀ s ∈ parts.header.idSections,
    ∃ run, (s.1, run) ∈ parts.runs items data ∧ (run = [] → s.2.size = 0 ∧ s.2.offset = 0) ∧
      (run ≠ [] → ∃ item ∈ parts.mapItems, item.type = s.1.typeCode ∧ s.2.size = item.size ∧
        s.2.offset = item.offset) := by
  intro s hs
  rw [header_idSections] at hs
  obtain ⟨type, htype, rfl⟩ := List.mem_map.mp hs
  have hkinds : ∀ type ∈ [ItemType.stringId, .typeId, .protoId, .fieldId, .methodId, .classDef],
      type ∈ b.idSections.map Prod.fst := by simp [idSections]
  obtain ⟨count, start, hstart, hsection⟩ := b.exists_sectionStart (hkinds type htype)
  obtain ⟨⟨type', run⟩, hmem, htype', hlength, hfirst⟩ :=
    exists_mem_right (forall₂_packedSections hsized Header.byteSize) hstart
  dsimp only at htype' hlength hfirst
  subst htype' hlength
  have hruns : (type', run) ∈ parts.runs items data :=
    List.mem_cons_of_mem _ (List.mem_append_left _ (List.mem_append_left _ hmem))
  refine ⟨run, hruns, fun hempty => ?_, fun hne => ?_⟩
  · rw [hsection, hempty]
    exact ⟨rfl, rfl⟩
  · obtain ⟨p, rest, rfl⟩ := List.exists_cons_of_ne_nil hne
    rw [hsection, ← hfirst p rfl, parts.mapItems_eq_runs hsized hlaid]
    refine ⟨⟨type'.typeCode, UInt32.ofNat (p :: rest).length, UInt32.ofNat p.1⟩, ?_, rfl, rfl, rfl⟩
    exact List.mem_flatMap.mpr ⟨_, List.mem_map_of_mem hruns, List.mem_singleton_self _⟩

end runs

/-! ## Whole files -/

theorem signature_eq : parts.header.signature.toList = Sha1.digest (parts.file.toList.drop 32) := by
  have hle : signedFrom ≤ parts.header.write.length := by
    rw [Header.length_write]
    decide
  rw [file, List.toList_toArray]
  show _ = Sha1.digest ((parts.header.write ++ parts.body).drop signedFrom)
  rw [List.drop_append_of_le_length hle]
  exact sealHeader_signature _ _

theorem checksum_eq : parts.header.checksum = Adler32.checksum (parts.file.toList.drop 12) := by
  have hle : checkedFrom ≤ parts.header.write.length := by
    rw [Header.length_write]
    decide
  rw [file, List.toList_toArray]
  show _ = Adler32.checksum ((parts.header.write ++ parts.body).drop checkedFrom)
  rw [List.drop_append_of_le_length hle]
  exact sealHeader_checksum _ _

theorem fileOf_runs (hpools : b.pools.Ranked) : ∃ t items data, parts.ids = (items.flatMap Prod.snd).flatten ∧
    List.Forall₂ Sized b.idSections items ∧ data.map Prod.fst = dataOrder ∧ parts.data.Laid b.dataOffset data ∧
    b.FileOf t parts.header parts.map (parts.runs items data) := by
  obtain ⟨-, t, data, hoffsets, horder, hlaid, hdata⟩ := writeData_spec parts.writeData_eq
  obtain ⟨fields, methods, handles, hfields, hmethods, hhandles, hids, hsized⟩ :=
    exists_idItems hpools.listed parts.writeIds_eq
  rw [hoffsets] at hids hsized
  refine ⟨t, _, data, hids, hsized, horder, hlaid, ?_⟩
  have hids {type : ItemType} {forms : List (List UInt8)}
      (h : (type, forms) ∈ b.idItems t.toDataOffsets fields methods handles) :
      Run.Of (parts.runs (b.idItems t.toDataOffsets fields methods handles) data) type forms :=
    (Run.of_packedSections Header.byteSize h).mono fun s hs =>
      List.mem_cons_of_mem _ (List.mem_append_left _ (List.mem_append_left _ hs))
  have hsub : data ⊆ parts.runs (b.idItems t.toDataOffsets fields methods handles) data := fun s hs =>
    List.mem_cons_of_mem _ (List.mem_append_left _ (List.mem_append_right _ hs))
  exact {
    header := ⟨_, List.mem_cons_self, rfl⟩
    strings := hids (by simp [idItems])
    types := hids (by simp [idItems])
    protos := hids (by simp [idItems])
    fields := ⟨fields, hfields, hids (by simp [idItems])⟩
    methods := ⟨methods, hmethods, hids (by simp [idItems])⟩
    classes := hids (by simp [idItems])
    callSites := hids (by simp [idItems])
    handles := ⟨handles, hhandles, hids (by simp [idItems])⟩
    data := hdata.mono hsub
    map := ⟨_, List.mem_cons_of_mem _ (List.mem_append_right _ (List.mem_singleton_self _)), rfl⟩ }

/-- A file of fewer bytes than `extentBound` is consistent. -/
theorem consistent (hpools : b.pools.Ranked) (hsize : parts.file.size < extentBound) :
    ∃ t sections, b.Consistent parts.file t parts.header parts.map sections := by
  obtain ⟨t, items, data, hids, hsized, horder, hlaid, hfile⟩ := parts.fileOf_runs hpools
  have hlisted := parts.numbers_mapItems hsized hids hlaid hsize
  have hbetween := parts.between_runs hids hlaid
  have hbound : extentBound < UInt32.size := by decide
  have hend : b.dataOffset + parts.out.length = parts.file.size := by
    rw [size_file_eq, Output.position, out_base]
    rfl
  have hmap := parts.holds_map.le_size
  refine ⟨t, parts.runs items data, {
    order := parts.map_fst_runs hsized horder
    consists := hfile
    holds := parts.holds_runs hids hlaid
    between := hbetween
    aligned := parts.aligned_runs hsized hlaid
    header_read := (Header.yields_read parts.header_readable).at? parts.holds_header
    fileSize := ?_
    dataEnd := ?_
    map_read := ?_
    listed := hlisted
    types_nodup := ?_
    ascending := ?_
    ids := parts.exists_described hsized hlaid
    signature := parts.signature_eq
    checksum := parts.checksum_eq }⟩
  · rw [header_fileSize]
    exact UInt32.toNat_ofNat_of_lt' (by omega)
  · rw [header_data, UInt32.toNat_ofNat_of_lt' (by omega), UInt32.toNat_ofNat_of_lt' (by omega), hend]
  · rw [header_mapOffset, UInt32.toNat_ofNat_of_lt' (by omega)]
    exact (parts.reads_map hsize).at? parts.holds_map
  · have htypes : parts.mapItems.map MapItem.type = (parts.mapItems.map MapItem.numbers).map Prod.fst := by
      rw [List.map_map]
      rfl
    have hsublist := Run.types_listed_sublist (parts.runs items data)
    rw [← hlisted, ← htypes, parts.map_fst_runs hsized horder] at hsublist
    exact hsublist.nodup (by decide)
  · have hoffsets := Run.offsets_listed_pairwise hbetween (parts.occupied_runs hsized hlaid)
    rw [← hlisted, List.map_map, List.pairwise_map] at hoffsets
    exact hoffsets.imp fun hlt => UInt32.lt_iff_toNat_lt.mpr hlt

end Parts

end Blueprint

namespace Assembly

/-- Whenever a finalized assembly is written with fewer bytes than `extentBound`, the
file is consistent. -/
theorem write_consistent {a : Assembly} (ha : a.Finalized) {bytes : Bytes} (hwrite : (write.on a).1 = .ok bytes)
    (hsize : bytes.size < extentBound) :
    ∃ t header map sections, a.blueprint.Consistent bytes t header map sections := by
  rw [on_write ha.ranked] at hwrite
  obtain ⟨parts, rfl⟩ := Blueprint.Parts.exists_of_write hwrite
  obtain ⟨t, sections, h⟩ := parts.consistent ha.ranked hsize
  exact ⟨t, _, _, sections, h⟩

/-- A file of one field: there are strings, types and a field, but neither prototypes,
methods nor classes. -/
theorem write_consistent_field : ∃ a bytes t header map sections,
    finalize.on (gather .standard [.field ⟨"LA;", "f", "I"⟩]) = (.ok (), a) ∧ (write.on a).1 = .ok bytes ∧
      bytes.size < extentBound ∧ a.blueprint.Consistent bytes t header map sections := by
  obtain ⟨a, bytes, hfinal, hwrite, hsize⟩ := exists_write_field
  obtain ⟨t, header, map, sections, h⟩ := write_consistent (.finalized .standard _ hfinal) hwrite hsize
  exact ⟨a, bytes, t, header, map, sections, hfinal, hwrite, hsize, h⟩

end Assembly

end Dalvik
