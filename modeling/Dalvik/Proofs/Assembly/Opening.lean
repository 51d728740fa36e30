import Dalvik.Proofs.Assembly.DataSections
import Dalvik.Proofs.Assembly.IdSections

/-!
# Written files can be opened

`Blueprint.opens_write`: a file that has been written and whose size is below
`extentBound` can be opened, and the image finds every section where it is.
-/

namespace Dalvik

/-! ## Sections that only the map tells of -/

/-- A section that image and header tell of without the map. -/
def Draft.IsPlain (type : ItemType) : Prop :=
  type ≠ .callSiteId ∧ type ≠ .methodHandle ∧ type ≠ .hiddenApi

instance : DecidablePred Draft.IsPlain :=
  fun _ => inferInstanceAs (Decidable (_ ∧ _ ∧ _))

namespace Image

open Draft

theorem typeCode_ne_of_isPlain {type : ItemType} (h : IsPlain type) : type.typeCode ≠ ItemType.callSiteId.typeCode ∧
    type.typeCode ≠ ItemType.methodHandle.typeCode ∧ type.typeCode ≠ ItemType.hiddenApi.typeCode := by
  revert h
  cases type <;> decide

/-- Plain sections leave an image as it is. -/
theorem foldl_noteSection_plain {sections : List (ItemType × Nat × Nat)} (h : ∀ s ∈ sections, IsPlain s.1)
    (image : Image) : (mapEntries sections).foldl noteSection image = image := by
  induction sections with
  | nil => rfl
  | cons s sections ih =>
    obtain ⟨h1, h2, h3⟩ := typeCode_ne_of_isPlain (h s List.mem_cons_self)
    rw [mapEntries_cons, List.foldl_append]
    have hs : (mapEntry s.1 s.2.1 s.2.2).foldl noteSection image = image := by
      unfold mapEntry
      split
      · rfl
      · rw [List.foldl_cons, List.foldl_nil, noteSection, if_neg h1, if_neg h2, if_neg h3]
    rw [hs]
    exact ih fun s hs => h s (List.mem_cons_of_mem _ hs)

theorem foldl_noteSection_callSites (count start : Nat) {image : Image} (h : image.callSites = {}) :
    (mapEntry .callSiteId count start).foldl noteSection image = { image with callSites := sectionFrom count start } := by
  unfold mapEntry sectionFrom
  split
  · rw [← h]
    rfl
  · rfl

theorem foldl_noteSection_handles (count start : Nat) {image : Image} (h : image.methodHandles = {}) :
    (mapEntry .methodHandle count start).foldl noteSection image =
      { image with methodHandles := sectionFrom count start } := by
  unfold mapEntry sectionFrom
  split
  · rw [← h]
    rfl
  · rfl

theorem foldl_noteSection_hiddenApi (count start : Nat) {image : Image} (h : image.hiddenApi = none) :
    (mapEntry .hiddenApi count start).foldl noteSection image =
      { image with hiddenApi := if count = 0 then none else some (UInt32.ofNat start).toNat } := by
  unfold mapEntry
  split
  · rw [← h]
    rfl
  · rfl

theorem reach_eq {image : Image} {offset : Nat} (h : offset ≤ image.bytes.size) : image.reach offset = .ok () :=
  (Read.Yields.pure ()).at? (.nil h)

/-- A header leads to the map and through the map to an image. -/
theorem ofHeader_eq {bytes : Bytes} {header : Header} {map : MapList} (hsize : header.fileSize.toNat ≤ bytes.size)
    (hne : header.mapOffset ≠ noOffset) (hmap : bytes.Holds header.mapOffset.toNat (Layout.write map))
    (hreads : Layout.Reads map) (opcodes : Opcodes) :
    ofHeader bytes header opcodes = .ok (map.items.foldl noteSection { bytes, header, opcodes }) := by
  have hle := hmap.le_size
  have hreach : reach { bytes, header, opcodes } header.mapOffset.toNat = .ok () := reach_eq (by simp; omega)
  have hread : readAt { bytes, header, opcodes } (Layout.read : Read MapList) header.mapOffset.toNat = .ok map :=
    hreads.at? hmap
  unfold ofHeader
  rw [if_neg (by omega)]
  dsimp only
  rw [if_neg hne, hreach, Result.ok_bind, hread]
  rfl

end Image

namespace Blueprint

/-! ## The parts of a written file -/

/-- The parts of a file: the offsets of the data, their draft, and the written
identifiers, which end where the data begin. -/
structure Parts (b : Blueprint) where
  offsets : DataOffsets
  data : Draft
  ids : List UInt8
  writeData_eq : b.writeData (Draft.startingAt b.dataOffset) = .ok (offsets, data)
  writeIds_eq : b.writeIds offsets = .ok ids
  dataOffset_eq : b.dataOffset = Header.byteSize + ids.length

namespace Parts

variable {b : Blueprint} (parts : b.Parts)

/-- The data with the map. -/
def out : Output := (b.withMap parts.data).1

/-- Where the map is. -/
def mapOffset : Nat := (b.withMap parts.data).2

/-- What follows the header. -/
def body : List UInt8 := parts.ids ++ parts.out.bytes.toList

/-- The header of the file. -/
def header : Header :=
  sealHeader (b.header (Header.byteSize + parts.body.length) parts.out.length parts.mapOffset) parts.body

/-- The whole file. -/
def file : Bytes := (parts.header.write ++ parts.body).toArray

theorem exists_of_write {bytes : Bytes} (h : b.write = .ok bytes) : ∃ parts : b.Parts, bytes = parts.file := by
  unfold write at h
  obtain ⟨⟨offsets, data⟩, hdata, h⟩ := Result.bind_eq_ok h
  dsimp only at h
  obtain ⟨ids, hids, h⟩ := Result.bind_eq_ok h
  split at h
  · cases h
  · rename_i hend
    exact ⟨⟨offsets, data, ids, hdata, hids, (not_not.mp hend).symm⟩, (Except.ok.inj h).symm⟩

theorem write_eq : b.write = .ok parts.file := by
  show (b.writeData (Draft.startingAt b.dataOffset) >>= _) = _
  rw [parts.writeData_eq, Result.ok_bind]
  show (b.writeIds parts.offsets >>= _) = _
  rw [parts.writeIds_eq, Result.ok_bind, if_neg (not_not_intro parts.dataOffset_eq.symm)]
  rfl

theorem size_file : parts.file.size = Header.byteSize + parts.body.length := by
  rw [file, List.size_toArray, List.length_append, Header.length_write]

theorem holds_header : parts.file.Holds 0 parts.header.write :=
  ⟨[], parts.body, by rw [file, List.toList_toArray, List.nil_append], rfl⟩

theorem holds_body : parts.file.Holds Header.byteSize parts.body :=
  ⟨parts.header.write, [], by rw [file, List.toList_toArray, List.append_nil], Header.length_write _⟩

theorem holds_ids : parts.file.Holds Header.byteSize parts.ids :=
  parts.holds_body.left

theorem header_fileSize : parts.header.fileSize = UInt32.ofNat parts.file.size := by
  rw [size_file]
  rfl

theorem header_mapOffset : parts.header.mapOffset = UInt32.ofNat parts.mapOffset := rfl

theorem header_readable : parts.header.Readable where
  magic := rfl
  endianTag := rfl
  headerSize := by
    show Header.byteSize ≤ (UInt32.ofNat Header.byteSize).toNat
    decide

theorem header_version : parts.header.version = .ok b.opcodes.version := by
  refine Header.version_magicOf rfl ?_
  unfold Opcodes.version
  grind

theorem out_extends : parts.data.out.Extends parts.out :=
  .trans (.align 4) (.append _)

include parts in
theorem dataOffset_pos : 0 < b.dataOffset := by
  rw [parts.dataOffset_eq]
  exact Nat.add_pos_left (by decide) _

theorem out_base : parts.out.base = b.dataOffset := by
  rw [parts.out_extends.1, (writeData_spec parts.writeData_eq).1]

theorem out_in : parts.out.In parts.file := by
  rw [Output.In, parts.out_base, parts.dataOffset_eq]
  exact parts.holds_body.right

theorem size_file_eq : parts.file.size = parts.out.position := by
  rw [size_file, body, List.length_append, Array.length_toList, Output.position, parts.out_base, parts.dataOffset_eq,
    Nat.add_assoc]

/-! ## The map -/

/-- The sections in front of the data. -/
theorem leadingSections_eq (b : Blueprint) : b.leadingSections.sections.toList =
    Draft.mapEntries ((.header, 1, 0) :: sectionStarts Header.byteSize b.idSections) := by
  have hfold : ∀ (sections : List (ItemType × Nat × Nat)) (d : Draft),
      (sections.foldl (fun d s => d.note s.1 s.2.1 s.2.2) d).sections.toList =
        d.sections.toList ++ Draft.mapEntries sections := by
    intro sections
    induction sections with
    | nil => simp [Draft.mapEntries]
    | cons s sections ih =>
      intro d
      rw [List.foldl_cons, ih, Draft.note_sections, Draft.mapEntries_cons, List.append_assoc]
  exact hfold _ _

theorem sectionStarts_le {sections : List (ItemType × Nat × Nat)} (hsize : ∀ s ∈ sections, 0 < s.2.2) (start : Nat) :
    start ≤ sections.foldl (fun offset s => offset + s.2.1 * s.2.2) start ∧
      ∀ s ∈ sectionStarts start sections,
        s.2.1 + s.2.2 ≤ sections.foldl (fun offset s => offset + s.2.1 * s.2.2) start := by
  induction sections generalizing start with
  | nil => exact ⟨Nat.le_refl _, fun s hs => nomatch hs⟩
  | cons s sections ih =>
    obtain ⟨hle, hall⟩ := ih (fun s hs => hsize s (List.mem_cons_of_mem _ hs)) (start + s.2.1 * s.2.2)
    have hcount : s.2.1 ≤ s.2.1 * s.2.2 := Nat.le_mul_of_pos_right _ (hsize s List.mem_cons_self)
    rw [List.foldl_cons]
    refine ⟨by omega, fun s' hs' => ?_⟩
    rcases List.mem_cons.mp hs' with rfl | hs'
    · show s.2.1 + start ≤ _
      omega
    · exact hall s' hs'

theorem idSections_pos (b : Blueprint) : ∀ s ∈ b.idSections, 0 < s.2.2 := by
  simp [idSections, StringId.byteSize, TypeId.byteSize, ProtoId.byteSize, FieldId.byteSize, MethodId.byteSize,
    ClassDefItem.byteSize, CallSiteId.byteSize, MethodHandleId.byteSize]

/-- The sections of the whole file: those of the header and the identifiers,
those of the data, the hidden API data and the map itself. -/
def fileSections (b : Blueprint) (plain : List (ItemType × Nat × Nat)) (hiddenApi mapOffset : Nat) :
    List (ItemType × Nat × Nat) :=
  (.header, 1, 0) :: sectionStarts Header.byteSize b.idSections ++ plain ++
    [(.hiddenApi, b.hiddenApiItems.length, hiddenApi), (.mapList, 1, mapOffset)]

/-- The items of the map. -/
def mapItems : List MapItem :=
  (b.leadingSections.sections ++ parts.data.sections).toList ++
    [⟨ItemType.mapList.typeCode, 1, UInt32.ofNat parts.mapOffset⟩]

theorem out_position : parts.out.position = (parts.data.out.align 4).position + (4 + parts.mapItems.length * 12) := by
  have hlength : (Layout.write (SizedList.ofItems parts.mapItems : MapList)).length =
      4 + parts.mapItems.length * 12 := Layout.length_sizedList fun item _ => Layout.length_mapItem item
  rw [← hlength]
  exact Output.append_position _

theorem length_mapItems_le : parts.mapItems.length ≤ 10 + parts.data.sections.size := by
  have hleading := Draft.length_mapEntries_le ((.header, 1, 0) :: sectionStarts Header.byteSize b.idSections)
  rw [← leadingSections_eq, Array.length_toList] at hleading
  have hcount : ((ItemType.header, 1, 0) :: sectionStarts Header.byteSize b.idSections).length = 9 := rfl
  rw [mapItems, List.length_append, Array.length_toList, Array.size_append, List.length_singleton]
  omega

theorem holds_map :
    parts.file.Holds parts.mapOffset (Layout.write (SizedList.ofItems parts.mapItems)) :=
  Output.In.holds_append (parts.out_in)

theorem mapOffset_pos : 0 < parts.mapOffset := by
  have hle : parts.data.out.position ≤ parts.mapOffset := Output.Extends.position_le (.align 4)
  have hbase := (writeData_spec parts.writeData_eq).1
  have hpos := parts.dataOffset_pos
  rw [Output.position] at hle
  omega

/-- The map lists the sections of the header and the identifiers, those of the data, and
itself. -/
theorem mapItems_eq {base : Nat} {sections : List (ItemType × Run)} (h : parts.data.Laid base sections) :
    parts.mapItems = Draft.mapEntries ((.header, 1, 0) :: sectionStarts Header.byteSize b.idSections ++
      sections.map (fun s => Draft.summary s.1 s.2) ++ [(.mapList, 1, parts.mapOffset)]) := by
  rw [mapItems, Array.toList_append, leadingSections_eq, h.noted, Draft.mapEntries_append, Draft.mapEntries_append]
  rfl

theorem exists_fileSections : ∃ plain hiddenApi,
    parts.mapItems = Draft.mapEntries (fileSections b plain hiddenApi parts.mapOffset) ∧
    (∀ s ∈ plain, Draft.IsPlain s.1) ∧
    (∀ s ∈ fileSections b plain hiddenApi parts.mapOffset, s.2.1 + s.2.2 ≤ parts.file.size) ∧
    ∀ item ∈ b.hiddenApiItems.head?, parts.file.Holds hiddenApi item.2 := by
  obtain ⟨-, t, sections, -, horder, hlaid, hdata⟩ := writeData_spec parts.writeData_eq
  have hin := parts.out_in.of_extends parts.out_extends
  have hle : parts.data.out.position ≤ parts.mapOffset := Output.Extends.position_le (.align 4)
  have hmap := parts.holds_map.le_size
  have hform := List.length_pos_iff.mpr (Layout.write_sizedList_ne_nil (SizedList.ofItems parts.mapItems))
  have hsummary : ∀ s ∈ sections, s.2.length + (s.2.head?.map Prod.fst).getD 0 ≤ parts.data.out.position :=
    fun s hs => (hlaid.between_of_mem hs).length_add_head_le (hlaid.occupied s hs)
  have hholds := hlaid.holds parts.file hin
  -- the hidden API data come last
  have hend : dataOrder = dataOrder.dropLast ++ [ItemType.hiddenApi] := rfl
  obtain ⟨front, last, rfl, hfront, hlast⟩ := List.map_eq_append_iff.mp (horder.trans hend)
  obtain ⟨⟨_, run⟩, rfl, rfl⟩ := List.map_eq_singleton_iff.mp hlast
  have hrun : run.map Prod.snd = b.hiddenApiItems.map Prod.snd := by
    obtain ⟨table, htable⟩ := hdata.hiddenApi
    obtain ⟨run', hmem, hrun⟩ := htable.exists_run
    rcases List.mem_append.mp hmem with hmem | hmem
    · have : ItemType.hiddenApi ∈ dataOrder.dropLast := hfront ▸ List.mem_map_of_mem hmem
      exact absurd this (by decide)
    · cases List.mem_singleton.mp hmem
      exact hrun
  have hcount : run.length = b.hiddenApiItems.length := by
    rw [← List.length_map Prod.snd, hrun, List.length_map]
  refine ⟨front.map fun s => Draft.summary s.1 s.2, (run.head?.map Prod.fst).getD 0, ?_, ?_, ?_, ?_⟩
  · rw [parts.mapItems_eq hlaid, fileSections, List.map_append, ← hcount, ← List.append_assoc, List.append_assoc]
    rfl
  · refine List.forall_mem_map.mpr fun s hs => ?_
    have hplain : ∀ type ∈ dataOrder.dropLast, Draft.IsPlain type := by decide
    exact hplain s.1 (hfront ▸ List.mem_map_of_mem hs)
  · intro s hs
    simp only [fileSections, List.cons_append, List.mem_cons, List.mem_append, List.not_mem_nil, or_false] at hs
    rcases hs with rfl | (hs | hs) | rfl | rfl
    · show 1 + 0 ≤ _
      omega
    · have hids : s.2.1 + s.2.2 ≤ b.dataOffset := (sectionStarts_le (idSections_pos b) Header.byteSize).2 s hs
      have hbody := parts.holds_ids.le_size
      rw [parts.dataOffset_eq] at hids
      omega
    · obtain ⟨s, hmem, rfl⟩ := List.mem_map.mp hs
      have : s.2.length + (s.2.head?.map Prod.fst).getD 0 ≤ _ := hsummary s (List.mem_append_left _ hmem)
      show s.2.length + (s.2.head?.map Prod.fst).getD 0 ≤ _
      omega
    · have : run.length + (run.head?.map Prod.fst).getD 0 ≤ _ := hsummary (.hiddenApi, run) (by simp)
      show b.hiddenApiItems.length + (run.head?.map Prod.fst).getD 0 ≤ _
      omega
    · show 1 + parts.mapOffset ≤ _
      omega
  · intro item hitem
    have hhead : run.head?.map Prod.snd = some item.2 := by
      rw [← List.head?_map, hrun, List.head?_map, hitem, Option.map_some]
    obtain ⟨p, hp, hform⟩ := Option.map_eq_some_iff.mp hhead
    rw [hp, ← hform]
    exact hholds (.hiddenApi, run) (by simp) p (List.mem_of_mem_head? hp)

/-! ## Opening -/

/-- The image that a file with given sections of call sites, method handles and
hidden API data is opened as. -/
def image (opcodes : Opcodes) (hiddenApi : Nat) : Image where
  bytes := parts.file
  header := parts.header
  opcodes
  callSites := b.sectionOf .callSiteId
  methodHandles := b.sectionOf .methodHandle
  hiddenApi := if b.hiddenApiItems.length = 0 then none else some (UInt32.ofNat hiddenApi).toNat

/-- The sections of the file lead from a fresh image to that of the file. -/
theorem foldl_fileSections (opcodes : Opcodes) {plain : List (ItemType × Nat × Nat)}
    (hplain : ∀ s ∈ plain, Draft.IsPlain s.1) (hiddenApi mapOffset : Nat) :
    (Draft.mapEntries (fileSections b plain hiddenApi mapOffset)).foldl Image.noteSection
      { bytes := parts.file, header := parts.header, opcodes } = parts.image opcodes hiddenApi := by
  obtain ⟨front, callSites, handles, hstarts, hfront, hcallSites, hhandles⟩ :
      ∃ (front : List (ItemType × Nat × Nat)) (callSites handles : Nat),
        sectionStarts Header.byteSize b.idSections = front ++
          [(.callSiteId, b.pools.callSites.size, callSites), (.methodHandle, b.pools.handles.size, handles)] ∧
        (∀ s ∈ front, Draft.IsPlain s.1) ∧
        b.sectionOf .callSiteId = sectionFrom b.pools.callSites.size callSites ∧
        b.sectionOf .methodHandle = sectionFrom b.pools.handles.size handles :=
    ⟨[_, _, _, _, _, _], _, _, rfl, by simp; decide, rfl, rfl⟩
  have hsections : fileSections b plain hiddenApi mapOffset = ((.header, 1, 0) :: front) ++
      (.callSiteId, b.pools.callSites.size, callSites) :: (.methodHandle, b.pools.handles.size, handles) ::
        (plain ++ [(.hiddenApi, b.hiddenApiItems.length, hiddenApi), (.mapList, 1, mapOffset)]) := by
    rw [fileSections, hstarts]
    simp
  have hfront : ∀ s ∈ (.header, 1, 0) :: front, Draft.IsPlain s.1 := List.forall_mem_cons.mpr ⟨by decide, hfront⟩
  have hmap : ∀ s ∈ [(ItemType.mapList, 1, mapOffset)], Draft.IsPlain s.1 := by simp; decide
  rw [hsections, Draft.mapEntries_append, List.foldl_append, Image.foldl_noteSection_plain hfront,
    Draft.mapEntries_cons, List.foldl_append, Image.foldl_noteSection_callSites _ _ rfl,
    Draft.mapEntries_cons, List.foldl_append, Image.foldl_noteSection_handles _ _ rfl,
    Draft.mapEntries_append, List.foldl_append, Image.foldl_noteSection_plain hplain,
    Draft.mapEntries_cons, List.foldl_append, Image.foldl_noteSection_hiddenApi _ _ rfl,
    Image.foldl_noteSection_plain hmap, image, hcallSites, hhandles]

/-- The map is read as it was written. -/
theorem reads_map (hsize : parts.file.size < extentBound) :
    Layout.Reads (SizedList.ofItems parts.mapItems : MapList) := by
  obtain ⟨plain, hiddenApi, hitems, -, hle, -⟩ := parts.exists_fileSections
  have hbound : extentBound < UInt32.size := by decide
  have hne : ∀ item ∈ parts.mapItems, Layout.write item ≠ [] := fun item _ => by
    refine List.length_pos_iff.mp ?_
    rw [Layout.length_mapItem]
    decide
  refine Layout.reads_sizedList_of_holds (parts.holds_map) hsize (fun item hitem => ?_) hne
  rw [hitems] at hitem
  obtain ⟨s, hs, hitem⟩ := List.mem_flatMap.mp hitem
  have := hle s hs
  unfold Draft.mapEntry at hitem
  split at hitem
  · cases hitem
  · rw [List.mem_singleton.mp hitem]
    exact Layout.reads_mapItem (by simp; omega) (by simp; omega)

/-- The file is opened as the image that its map leads to. -/
theorem ofHeader_eq (hsize : parts.file.size < extentBound) (opcodes : Opcodes) :
    Image.ofHeader parts.file parts.header opcodes =
      .ok (parts.mapItems.foldl Image.noteSection { bytes := parts.file, header := parts.header, opcodes }) := by
  have hmap := parts.holds_map
  have hle := hmap.le_size
  have hpos := parts.mapOffset_pos
  have hbound : extentBound < UInt32.size := by decide
  have hfileSize : (UInt32.ofNat parts.file.size).toNat = parts.file.size := UInt32.toNat_ofNat_of_lt' (by omega)
  have hmapOffset : (UInt32.ofNat parts.mapOffset).toNat = parts.mapOffset := UInt32.toNat_ofNat_of_lt' (by omega)
  have hne : UInt32.ofNat parts.mapOffset ≠ noOffset := fun hzero => by
    rw [hzero] at hmapOffset
    exact absurd hmapOffset.symm (Nat.ne_of_gt hpos)
  have hheld : parts.file.Holds parts.header.mapOffset.toNat (Layout.write (SizedList.ofItems parts.mapItems)) := by
    rwa [header_mapOffset, hmapOffset]
  refine Image.ofHeader_eq ?_ ?_ hheld (parts.reads_map hsize) opcodes
  · rw [header_fileSize, hfileSize]
  · rwa [header_mapOffset]

end Parts

/-! ## Opening -/

theorem exists_ofVersion (o : Opcodes) : ∃ o', Opcodes.ofVersion o.version = .ok o' := by
  unfold Opcodes.version
  split
  · exact ⟨_, rfl⟩
  · split
    · exact ⟨_, rfl⟩
    · split
      · exact ⟨_, rfl⟩
      · split
        · exact ⟨_, rfl⟩
        · split <;> exact ⟨_, rfl⟩

/-- Sections that a file holds as its blueprint says, in an image of it. -/
structure Opens (b : Blueprint) (t : DataTables) (image : Image) : Prop where
  size_lt : image.bytes.size < extentBound
  opcodes : Opcodes.ofVersion b.opcodes.version = .ok image.opcodes
  stringIds : image.header.stringIds = b.sectionOf .stringId
  typeIds : image.header.typeIds = b.sectionOf .typeId
  protoIds : image.header.protoIds = b.sectionOf .protoId
  fieldIds : image.header.fieldIds = b.sectionOf .fieldId
  methodIds : image.header.methodIds = b.sectionOf .methodId
  classDefs : image.header.classDefs = b.sectionOf .classDef
  callSites : image.callSites = b.sectionOf .callSiteId
  methodHandles : image.methodHandles = b.sectionOf .methodHandle
  hiddenApi : ∃ offset, image.hiddenApi = (if b.hiddenApiItems.length = 0 then none else some offset) ∧
    ∀ item ∈ b.hiddenApiItems.head?, image.bytes.Holds offset item.2
  identified : b.Identified t.toDataOffsets image.bytes
  data : b.DataStand image.bytes t

/-- A written file of fewer bytes than `extentBound` can be opened. -/
theorem opens_write {b : Blueprint} (hpools : b.pools.Ranked) {bytes : Bytes} (h : b.write = .ok bytes)
    (hsize : bytes.size < extentBound) :
    ∃ t image, Image.ofBytes bytes = .ok image ∧ image.bytes = bytes ∧ b.Opens t image := by
  obtain ⟨parts, rfl⟩ := Parts.exists_of_write h
  obtain ⟨plain, hiddenApi, hitems, hplain, hle, hhiddenApi⟩ := parts.exists_fileSections
  obtain ⟨-, t, sections, hoffsets, -, hlaid, hdata⟩ := writeData_spec parts.writeData_eq
  have hin := parts.out_in
  obtain ⟨opcodes, hopcodes⟩ := exists_ofVersion b.opcodes
  refine ⟨t, parts.image opcodes hiddenApi, ?_, rfl, ?_⟩
  · rw [Image.ofBytes, (Header.yields_read parts.header_readable).at? parts.holds_header, Result.ok_bind,
      parts.header_version, Result.ok_bind, hopcodes, Result.ok_bind, parts.ofHeader_eq hsize, hitems,
      parts.foldl_fileSections opcodes hplain]
  · exact {
      size_lt := hsize
      opcodes := hopcodes
      stringIds := rfl
      typeIds := rfl
      protoIds := rfl
      fieldIds := rfl
      methodIds := rfl
      classDefs := rfl
      callSites := rfl
      methodHandles := rfl
      hiddenApi := ⟨_, rfl, fun item hitem => by
        have hholds := hhiddenApi item hitem
        have hoffset := hholds.le_size
        rw [UInt32.toNat_ofNat_of_lt' (Nat.lt_of_le_of_lt (by omega) (Nat.lt_trans hsize (by decide)))]
        exact hholds⟩
      identified := hoffsets ▸ (writeIds_spec hpools.listed parts.writeIds_eq).2 _ hsize parts.holds_ids
      data := hdata.stand hlaid parts.dataOffset_pos (hin.of_extends parts.out_extends) }

end Blueprint

end Dalvik
