import Dalvik.Proofs.Assembly.Written
import Dalvik.Proofs.Class.Room

/-!
# The room of a file

A file takes up at most the room of its entries and of its classes, and a number of
bytes that no file exceeds (`Blueprint.Parts.size_file_le`). So what a file is made of
tells whether it stays below a size (`Blueprint.Settled.exists_write_le`).
-/

namespace Dalvik

open Result

/-! ## Entries -/

namespace Entry

/-- The room of the data of a string: its length, its bytes and the zero behind them. -/
def stringRoom (s : String) : Nat :=
  Leb128.maxLength + (Mutf8.encode s).length + 1 + paddingRoom

def typeListRoom (types : List String) : Nat :=
  4 + types.length * 2 + paddingRoom

def arrayRoom (values : List Value) : Nat :=
  Leb128.maxLength + Value.roomOfEach values + paddingRoom

def annotationRoom (a : AnnotationItem) : Nat :=
  1 + (2 * Leb128.maxLength + Value.roomOfElements a.elements) + paddingRoom

def annotationSetRoom (annotations : List AnnotationItem) : Nat :=
  4 + annotations.length * 4 + paddingRoom

/-- The size of the identifier of an entry. -/
def idSize : Entry → Nat
  | string _ => StringId.byteSize
  | type _ => TypeId.byteSize
  | proto _ => ProtoId.byteSize
  | field _ => FieldId.byteSize
  | method _ => MethodId.byteSize
  | handle _ => MethodHandleId.byteSize
  | callSite _ => CallSiteId.byteSize
  | typeList _ | array _ | annotationItem _ | annotationSet _ => 0

/-- The room of what the data have of an entry. -/
def dataRoom : Entry → Nat
  | string s => stringRoom s
  | typeList types => typeListRoom types
  | array values => arrayRoom values
  | annotationItem a => annotationRoom a
  | annotationSet annotations => annotationSetRoom annotations
  | type _ | proto _ | field _ | method _ | handle _ | callSite _ => 0

/-- The bytes that an entry takes up at most. -/
def room (e : Entry) : Nat :=
  e.idSize + e.dataRoom

end Entry

namespace Pools

variable {p : Pools}

/-- The entries of all pools, pool by pool. -/
def entries (p : Pools) : List Entry :=
  p.strings.sortedKeys.map .string ++ (p.types.sortedKeys.map .type ++ (p.typeLists.sortedKeys.map .typeList ++
    (p.protos.sortedKeys.map .proto ++ (p.fields.sortedKeys.map .field ++ (p.methods.sortedKeys.map .method ++
      (p.handles.sortedKeys.map .handle ++ (p.arrays.sortedKeys.map .array ++ (p.callSites.sortedKeys.map .callSite ++
        (p.annotations.sortedKeys.map .annotationItem ++ p.annotationSets.sortedKeys.map .annotationSet)))))))))

/-- The room of the data of the entries, section by section. -/
theorem sum_dataRoom (p : Pools) : (p.entries.map Entry.dataRoom).sum =
    (p.strings.sortedKeys.map Entry.stringRoom).sum + (p.typeLists.sortedKeys.map Entry.typeListRoom).sum +
      (p.arrays.sortedKeys.map Entry.arrayRoom).sum + (p.annotations.sortedKeys.map Entry.annotationRoom).sum +
      (p.annotationSets.sortedKeys.map Entry.annotationSetRoom).sum := by
  simp only [entries, List.map_append, List.sum_append, List.map_map, Function.comp_def, Entry.dataRoom,
    List.map_const', List.sum_replicate_nat, Nat.mul_zero, Nat.zero_add, Nat.add_assoc]

namespace Ranked

variable (hr : p.Ranked)

include hr

theorem mem_entries {e : Entry} : e ∈ p.entries ↔ p.Has e := by
  cases e <;> simp [entries, Has, hr.strings.mem_sortedKeys, hr.types.mem_sortedKeys, hr.typeLists.mem_sortedKeys,
    hr.protos.mem_sortedKeys, hr.fields.mem_sortedKeys, hr.methods.mem_sortedKeys, hr.handles.mem_sortedKeys,
    hr.arrays.mem_sortedKeys, hr.callSites.mem_sortedKeys, hr.annotations.mem_sortedKeys,
    hr.annotationSets.mem_sortedKeys]

/-- No pool has an entry twice, and no two pools have entries of one kind. -/
theorem nodup_entries : p.entries.Nodup := by
  have hpool {α : Type} [BEq α] [Hashable α] {pool : Pool α} {before : α → α → Prop} (h : pool.Ranked before)
      {name : α → Entry} (hname : Function.Injective name) : (pool.sortedKeys.map name).Nodup := h.nodup.map hname
  simp only [entries, List.nodup_append', List.disjoint_append_right]
  simp only [hpool hr.strings fun _ _ => Entry.string.inj, hpool hr.types fun _ _ => Entry.type.inj,
    hpool hr.typeLists fun _ _ => Entry.typeList.inj, hpool hr.protos fun _ _ => Entry.proto.inj,
    hpool hr.fields fun _ _ => Entry.field.inj, hpool hr.methods fun _ _ => Entry.method.inj,
    hpool hr.handles fun _ _ => Entry.handle.inj, hpool hr.arrays fun _ _ => Entry.array.inj,
    hpool hr.callSites fun _ _ => Entry.callSite.inj, hpool hr.annotations fun _ _ => Entry.annotationItem.inj,
    hpool hr.annotationSets fun _ _ => Entry.annotationSet.inj, true_and]
  simp [List.disjoint_left]

/-- The entries of the pools take up no more room than a list that has all of them. -/
theorem sum_room_le {entries : List Entry} (h : ∀ e, p.Has e → e ∈ entries) :
    (p.entries.map Entry.room).sum ≤ (entries.map Entry.room).sum := by
  obtain ⟨kept, hperm, hsub⟩ := List.subperm_of_subset hr.nodup_entries fun e he => h e (hr.mem_entries.mp he)
  rw [← (hperm.map _).sum_eq]
  exact (hsub.map _).sum_le_sum fun _ _ => Nat.zero_le _

end Ranked

end Pools

/-! ## Sections -/

namespace Draft

section items

variable {κ α : Type}

/-- The room that items take up when each of them is aligned. -/
def room (items : List (κ × List UInt8)) : Nat :=
  (items.map fun item => item.2.length + paddingRoom).sum

theorem place_position_le {alignment : Nat} (hpos : 0 < alignment) (hle : alignment ≤ 4)
    (items : List (κ × List UInt8)) (out : Output) (offsets : Array (κ × Nat)) :
    (place alignment out offsets items).1.position ≤ out.position + room items := by
  induction items generalizing out offsets with
  | nil => exact Nat.le_add_right _ _
  | cons item items ih =>
    have halign : (out.align alignment).position ≤ out.position + 3 := Output.align_position_le hpos hle
    have hplace := ih ((out.align alignment).append item.2) (offsets.push (item.1, (out.align alignment).position))
    rw [Output.append_position] at hplace
    show (place alignment ((out.align alignment).append item.2) _ items).1.position ≤ _
    rw [room, List.map_cons, List.sum_cons, ← room, paddingRoom]
    omega

variable {bound : α → Nat} {l : List α}

theorem room_le_of_forall₂ {items : List (κ × List UInt8)}
    (h : List.Forall₂ (fun a item => item.2.length + paddingRoom ≤ bound a) l items) :
    room items ≤ (l.map bound).sum := by
  induction h with
  | nil => exact Nat.le_refl _
  | cons hitem _ ih =>
    rw [room, List.map_cons, List.map_cons, List.sum_cons, List.sum_cons]
    exact Nat.add_le_add hitem ih

theorem room_le_of_mapM {make : α → Result (κ × List UInt8)} {items : List (κ × List UInt8)}
    (h : l.mapM make = .ok items) (hmake : ∀ a item, make a = .ok item → item.2.length + paddingRoom ≤ bound a) :
    room items ≤ (l.map bound).sum :=
  room_le_of_forall₂ ((forall₂_of_mapM h).imp hmake)

theorem room_map_le {make : α → κ × List UInt8} (hmake : ∀ a, (make a).2.length + paddingRoom ≤ bound a)
    (l : List α) : room (l.map make) ≤ (l.map bound).sum :=
  room_le_of_forall₂ (List.forall₂_map_right_iff.mpr (List.forall₂_same.mpr fun a _ => hmake a))

/-- What is left out takes up no room. -/
theorem room_filterMap_le {items : List (Option (κ × List UInt8))}
    (h : List.Forall₂ (fun a item => ∀ i ∈ item, i.2.length + paddingRoom ≤ bound a) l items) :
    room (items.filterMap id) ≤ (l.map bound).sum := by
  induction h with
  | nil => exact Nat.le_refl _
  | @cons a item l items hitem _ ih =>
    rw [List.map_cons, List.sum_cons]
    cases item with
    | none => exact Nat.le_trans ih (Nat.le_add_left _ _)
    | some item => exact Nat.add_le_add (hitem item rfl) ih

end items

/-- Where writing succeeds, it adds at most `size` bytes and `count` sections. -/
def WritesWithin {α : Type} (size count : Nat) (w : Write α) : Prop :=
  ∀ d a d', w d = .ok (a, d') → d'.out.position ≤ d.out.position + size ∧ d'.sections.size ≤ d.sections.size + count

namespace WritesWithin

variable {α : Type} {size rest count : Nat}

theorem mono {bound : Nat} {w : Write α} (h : WritesWithin size count w) (hle : size ≤ bound) :
    WritesWithin bound count w := fun d a d' hd =>
  ⟨Nat.le_trans (h d a d' hd).1 (Nat.add_le_add_left hle _), (h d a d' hd).2⟩

theorem pure (a : α) : WritesWithin 0 0 (Pure.pure a : Write α) := fun d a d' h => by
  cases h
  exact ⟨Nat.le_refl _, Nat.le_refl _⟩

variable {κ : Type} [BEq κ] [Hashable κ] {type : ItemType} {alignment : Nat}

theorem bind_align (hpos : 0 < alignment) (hle : alignment ≤ 4) {next : Write α}
    (hnext : WritesWithin rest count next) : WritesWithin (3 + rest) count (do align alignment; next) :=
  fun d a d' h => by
    have halign : (d.out.align alignment).position ≤ d.out.position + 3 := Output.align_position_le hpos hle
    obtain ⟨hposition, hsections⟩ := hnext { d with out := d.out.align alignment } a d' h
    dsimp only at hposition hsections
    omega

/-- Writing a section and going on. -/
theorem bind_section (hpos : 0 < alignment) (hle : alignment ≤ 4) {items : List (κ × List UInt8)}
    (hroom : room items ≤ size) {next : Std.HashMap κ Nat → Write α}
    (hnext : ∀ table, WritesWithin rest count (next table)) :
    WritesWithin (3 + size + rest) (count + 1) (do let table ← writeSection type alignment items; next table) :=
  fun d a d' h => by
    have halign : (d.out.align alignment).position ≤ d.out.position + 3 := Output.align_position_le hpos hle
    have hplace := place_position_le hpos hle items (d.out.align alignment) #[]
    have hnote := size_note_le { d with out := {} } type items.length (d.out.align alignment).position
    obtain ⟨hposition, hsections⟩ :=
      hnext (.ofList (place alignment (d.out.align alignment) #[] items).2.toList)
        { note { d with out := {} } type items.length (d.out.align alignment).position with
          out := (place alignment (d.out.align alignment) #[] items).1 } a d' h
    dsimp only at hposition hsections hnote
    omega

/-- Making items, writing a section of them and going on. -/
theorem bind_made (hpos : 0 < alignment) (hle : alignment ≤ 4) {made : Result (List (κ × List UInt8))}
    (hroom : ∀ items, made = .ok items → room items ≤ size) {next : Std.HashMap κ Nat → Write α}
    (hnext : ∀ table, WritesWithin rest count (next table)) : WritesWithin (3 + size + rest) (count + 1)
      (do let items ← liftM made; let table ← writeSection type alignment items; next table) := fun d a d' h => by
  obtain ⟨items, hmade, h⟩ := Draft.Write.lift_eq_ok h
  exact bind_section hpos hle (hroom items hmade) hnext d a d' h

end WritesWithin

end Draft

namespace Blueprint

open Draft (WritesWithin room_map_le room_le_of_mapM room_filterMap_le)

/-! ## The data -/

variable (b : Blueprint)

theorem room_stringItems_le : Draft.room b.stringItems ≤ (b.pools.strings.sortedKeys.map Entry.stringRoom).sum := by
  refine room_map_le (fun s => ?_) _
  have hlength := Leb128.length_encodeUnsigned (UInt32.ofNat (Utf16.length s))
  simp only [Write.stringData, Write.uleb128, List.length_append, List.length_singleton, Entry.stringRoom]
  omega

variable {b}

theorem room_typeListItems_le {items : List (List String × List UInt8)} (h : b.typeListItems = .ok items) :
    Draft.room items ≤ (b.pools.typeLists.sortedKeys.map Entry.typeListRoom).sum := by
  refine room_le_of_mapM h fun types item hitem => ?_
  obtain ⟨entries, hentries, hitem⟩ := bind_eq_ok hitem
  cases hitem
  have hcount := (forall₂_of_mapM hentries).length_eq
  dsimp only
  rw [Layout.length_sizedList fun _ _ => Layout.length_typeEntry _, Entry.typeListRoom, hcount]

theorem room_arrayItems_le {items : List (List Value × List UInt8)} (h : b.arrayItems = .ok items) :
    Draft.room items ≤ (b.pools.arrays.sortedKeys.map Entry.arrayRoom).sum := by
  refine room_le_of_mapM h fun values item hitem => ?_
  obtain ⟨form, hform, hitem⟩ := bind_eq_ok hitem
  cases hitem
  exact Nat.add_le_add_right (Value.length_encodeArray_le hform) _

theorem room_annotationItems_le {items : List (AnnotationItem × List UInt8)} (h : b.annotationItems = .ok items) :
    Draft.room items ≤ (b.pools.annotations.sortedKeys.map Entry.annotationRoom).sum := by
  refine room_le_of_mapM h fun a item hitem => ?_
  obtain ⟨body, hbody, hitem⟩ := bind_eq_ok hitem
  cases hitem
  have hlength := Value.length_encodeBody_le hbody
  rw [List.length_cons, Entry.annotationRoom]
  omega

theorem room_annotationSetItems_le {offsets : Std.HashMap AnnotationItem Nat}
    {items : List (List AnnotationItem × List UInt8)} (h : b.annotationSetItems offsets = .ok items) :
    Draft.room items ≤ (b.pools.annotationSets.sortedKeys.map Entry.annotationSetRoom).sum := by
  refine room_le_of_mapM h fun annotations item hitem => ?_
  obtain ⟨entries, hentries, hitem⟩ := bind_eq_ok hitem
  cases hitem
  have hcount := (forall₂_of_mapM hentries).length_eq
  dsimp only
  rw [Layout.length_sizedList fun _ _ => Layout.length_offsetEntry _, List.length_map, Members.sortedEntries,
    List.length_mergeSort, ← hcount, Entry.annotationSetRoom]

/-- The methods of the file are those of its classes. -/
theorem sum_methods (bound : MethodDef → Nat) : (b.methods.map fun cm => bound cm.2).sum =
    (b.classes.map fun c => (c.methods.map bound).sum).sum := by
  rw [methods]
  induction b.classes with
  | nil => rfl
  | cons c classes ih =>
    rw [List.flatMap_cons, List.map_append, List.sum_append, ih, List.map_map, List.map_cons, List.sum_cons]
    rfl

theorem room_parameterItems_le (sets : Members.SetOffsets) : Draft.room (b.parameterItems sets) ≤
    (b.classes.map fun c => (c.methods.map MethodDef.listRoom).sum).sum := by
  rw [← sum_methods]
  have hlist : ∀ cm : ClassDef × MethodDef,
      (Layout.write (Members.parameterSets sets cm.2)).length + paddingRoom ≤ cm.2.listRoom := fun cm => by
    rw [Members.length_parameterSets]
    exact Nat.le_refl _
  exact Nat.le_trans (room_map_le hlist _) ((List.filter_sublist.map _).sum_le_sum fun _ _ => Nat.zero_le _)

theorem room_directoryItems_le (sets : Members.SetOffsets) (parameterOffsets : Std.HashMap MethodSig Nat) :
    Draft.room (b.directoryItems sets parameterOffsets) ≤ (b.classes.map ClassDef.directoryRoom).sum := by
  have hitems : b.directoryItems sets parameterOffsets = (b.classes.map fun c =>
      let directory := Members.directory b.pools sets parameterOffsets c
      if directory.isEmpty then none else some (c.type, Layout.write directory)).filterMap id := by
    rw [directoryItems, List.filterMap_map, List.filterMap_map]
    rfl
  rw [hitems]
  refine room_filterMap_le (List.forall₂_map_right_iff.mpr (List.forall₂_same.mpr fun c _ item hitem => ?_))
  dsimp only at hitem
  split at hitem
  · cases hitem
  · cases hitem
    exact Members.length_directory_le b.pools sets parameterOffsets c

theorem room_debugItems_le {items : List (MethodSig × List UInt8)} (h : b.debugItems = .ok items) :
    Draft.room items ≤ (b.classes.map fun c => (c.methods.map MethodDef.debugRoom).sum).sum := by
  obtain ⟨made, hmade, h⟩ := bind_eq_ok h
  cases h
  rw [← sum_methods]
  refine room_filterMap_le ((forall₂_of_mapM hmade).imp fun cm item hitem i hi => ?_)
  cases hi
  obtain ⟨c, m⟩ := cm
  dsimp only at hitem
  unfold debugItem? at hitem
  dsimp only at hitem
  split at hitem
  · cases hitem
  · rename_i code hcode
    split at hitem
    · cases hitem
    · obtain ⟨form, hform, hitem⟩ := bind_eq_ok hitem
      cases hitem
      have hlength := DebugInfo.length_encode_le (within_eq_ok hform)
      rw [List.length_map] at hlength
      rw [MethodDef.debugRoom, hcode]
      exact Nat.add_le_add_right hlength _

theorem room_codeItems_le {debugOffsets : Std.HashMap MethodSig Nat} {items : List (MethodSig × List UInt8)}
    (h : b.codeItems debugOffsets = .ok items) :
    Draft.room items ≤ (b.classes.map fun c => (c.methods.map MethodDef.codeRoom).sum).sum := by
  obtain ⟨made, hmade, h⟩ := bind_eq_ok h
  cases h
  rw [← sum_methods]
  refine room_filterMap_le ((forall₂_of_mapM hmade).imp fun cm item hitem i hi => ?_)
  cases hi
  obtain ⟨c, m⟩ := cm
  dsimp only at hitem
  unfold codeItem? at hitem
  split at hitem
  · cases hitem
  · rename_i code hcode
    obtain ⟨form, hform, hitem⟩ := bind_eq_ok hitem
    cases hitem
    rw [MethodDef.codeRoom, hcode]
    exact Nat.add_le_add_right (CodeItem.length_encode_le (within_eq_ok hform)) _

theorem room_classDataItems_le {codeOffsets : Std.HashMap MethodSig Nat} {items : List (String × List UInt8)}
    (h : b.classDataItems codeOffsets = .ok items) :
    Draft.room items ≤ (b.classes.map ClassDef.dataRoom).sum := by
  refine Nat.le_trans (room_le_of_mapM h fun c item hitem => ?_)
    ((List.filter_sublist.map _).sum_le_sum fun _ _ => Nat.zero_le _)
  obtain ⟨form, hform, hitem⟩ := bind_eq_ok hitem
  cases hitem
  exact Members.length_writeClassData_le hform

theorem room_hiddenApiItems_le :
    Draft.room b.hiddenApiItems ≤ 4 + (b.classes.map ClassDef.flagsRoom).sum + paddingRoom := by
  rw [hiddenApiItems]
  split
  · exact Nat.add_le_add_right (Members.length_writeHiddenApi_le b.classes) _
  · exact Nat.zero_le _

theorem sum_itemsRoom (classes : List ClassDef) : (classes.map ClassDef.itemsRoom).sum =
    (classes.map fun c => (c.methods.map MethodDef.listRoom).sum).sum + (classes.map ClassDef.directoryRoom).sum +
      (classes.map fun c => (c.methods.map MethodDef.debugRoom).sum).sum +
      (classes.map fun c => (c.methods.map MethodDef.codeRoom).sum).sum + (classes.map ClassDef.dataRoom).sum +
      (classes.map ClassDef.flagsRoom).sum := by
  simp only [← List.sum_map_add]
  rfl

/-- Writing the data adds at most eleven sections, each with the room of its items and the
padding in front of it. -/
theorem writesWithin_writeData (b : Blueprint) : WritesWithin
    (43 + (b.pools.entries.map Entry.dataRoom).sum + (b.classes.map ClassDef.itemsRoom).sum) 11 b.writeData := by
  rw [Pools.sum_dataRoom, sum_itemsRoom]
  -- The sections tell their sizes one by one, so that the sum is known at the last of them.
  apply WritesWithin.mono
  case h =>
    unfold writeData
    apply WritesWithin.bind_section (by decide) (by decide) b.room_stringItems_le
    intro strings
    apply WritesWithin.bind_made (by decide) (by decide) (fun _ => room_typeListItems_le)
    intro typeLists
    apply WritesWithin.bind_made (by decide) (by decide) (fun _ => room_arrayItems_le)
    intro arrays
    apply WritesWithin.bind_made (by decide) (by decide) (fun _ => room_annotationItems_le)
    intro annotations
    apply WritesWithin.bind_align (by decide) (by decide)
    apply WritesWithin.bind_made (by decide) (by decide) (fun _ => room_annotationSetItems_le)
    intro sets
    apply WritesWithin.bind_section (by decide) (by decide) (room_parameterItems_le sets)
    intro parameters
    apply WritesWithin.bind_section (by decide) (by decide) (room_directoryItems_le sets parameters)
    intro directories
    apply WritesWithin.bind_made (by decide) (by decide) (fun _ => room_debugItems_le)
    intro debug
    apply WritesWithin.bind_made (by decide) (by decide) (fun _ => room_codeItems_le)
    intro code
    apply WritesWithin.bind_made (by decide) (by decide) (fun _ => room_classDataItems_le)
    intro classData
    exact .bind_section (by decide) (by decide) room_hiddenApiItems_le fun _ => .pure _
  case hle =>
    unfold paddingRoom
    omega

/-! ## Whole files -/

/-- The identifiers take up the sizes of those of the entries and the classes. -/
theorem dataOffset_eq_sum (hr : b.pools.Ranked) : b.dataOffset =
    Header.byteSize + (b.pools.entries.map Entry.idSize).sum + b.classes.length * ClassDefItem.byteSize := by
  simp only [dataOffset, idSections, List.foldl_cons, List.foldl_nil, Pools.entries, List.map_append, List.sum_append,
    List.map_map, Function.comp_def, Entry.idSize, List.map_const', List.sum_replicate_nat, Nat.mul_zero,
    hr.strings.length_sortedKeys, hr.types.length_sortedKeys, hr.protos.length_sortedKeys,
    hr.fields.length_sortedKeys, hr.methods.length_sortedKeys, hr.callSites.length_sortedKeys,
    hr.handles.length_sortedKeys]
  omega

/-- The bytes that a file takes up at most besides its entries and its classes: the header,
the map, the padding between the sections and the number of the hidden API data. -/
def baseRoom : Nat :=
  Header.byteSize + 43 + 3 + (4 + 21 * 12)

/-- The bytes that a file of some entries and classes takes up at most. -/
def fileRoom (entries : List Entry) (classes : List ClassDef) : Nat :=
  baseRoom + (entries.map Entry.room).sum + (classes.map ClassDef.room).sum

theorem fileRoom_eq_of_perm (entries : List Entry) {classes classes' : List ClassDef} (h : classes.Perm classes') :
    fileRoom entries classes = fileRoom entries classes' := by
  rw [fileRoom, (h.map _).sum_eq, fileRoom]

theorem Parts.size_file_le (parts : b.Parts) (hr : b.pools.Ranked) :
    parts.file.size ≤ fileRoom b.pools.entries b.classes := by
  have hentries : (b.pools.entries.map Entry.room).sum =
      (b.pools.entries.map Entry.idSize).sum + (b.pools.entries.map Entry.dataRoom).sum := List.sum_map_add
  have hclasses : (b.classes.map ClassDef.room).sum =
      b.classes.length * ClassDefItem.byteSize + (b.classes.map ClassDef.itemsRoom).sum := by
    rw [← List.sum_replicate_nat, ← List.map_const', ← List.sum_map_add]
    rfl
  obtain ⟨hdata, hsections⟩ := b.writesWithin_writeData _ _ _ parts.writeData_eq
  have hstart : (Draft.startingAt b.dataOffset).out.position = b.dataOffset := rfl
  have hnone : (Draft.startingAt b.dataOffset).sections.size = 0 := rfl
  have halign : (parts.data.out.align 4).position ≤ parts.data.out.position + 3 :=
    Output.align_position_le (by decide) (by decide)
  have hmap := parts.length_mapItems_le
  rw [hstart, dataOffset_eq_sum hr] at hdata
  rw [parts.size_file_eq, parts.out_position]
  unfold fileRoom baseRoom
  omega

/-- A settled file that meets the demands of the writers is written, in no more bytes than
its entries and its classes have room for. -/
theorem Settled.exists_write_le {entries : List Entry} (hs : b.Settled) (hd : b.Demanded entries) :
    ∃ bytes, b.write = .ok bytes ∧ bytes.size ≤ fileRoom entries b.classes := by
  obtain ⟨bytes, hwrite⟩ := hs.exists_write hd
  obtain ⟨parts, rfl⟩ := Parts.exists_of_write hwrite
  have hsize := parts.size_file_le hs.ranked
  have hentries := hs.ranked.sum_room_le hd.has
  unfold fileRoom at hsize ⊢
  exact ⟨parts.file, hwrite, by omega⟩

/-- Entries that are few are narrow in every kind. -/
theorem demanded_of_length_le {entries : List Entry} (hhas : ∀ e, b.pools.Has e → e ∈ entries)
    (hlength : entries.length ≤ 0x10000) (hsorted : ∀ c ∈ b.classes, c.Sorted)
    (hcode : ∀ c ∈ b.classes, ∀ m ∈ c.methods, ∀ code ∈ m.code, code.Writable b.opcodes entries) :
    b.Demanded entries where
  has := hhas
  types := Entry.narrow_of_length_le (fun _ _ => Entry.type.inj) hlength
  protos := Entry.narrow_of_length_le (fun _ _ => Entry.proto.inj) hlength
  fields := Entry.narrow_of_length_le (fun _ _ => Entry.field.inj) hlength
  methods := Entry.narrow_of_length_le (fun _ _ => Entry.method.inj) hlength
  sorted := hsorted
  code := hcode

/-- A file without classes is written if its entries are few. -/
theorem exists_write_of_no_classes {entries : List Entry} (hr : b.pools.Ranked) (hc : b.pools.Closed)
    (hclasses : b.classes = []) (hhas : ∀ e, b.pools.Has e → e ∈ entries) (hlength : entries.length ≤ 0x10000) :
    ∃ bytes, b.write = .ok bytes ∧ bytes.size ≤ fileRoom entries [] := by
  have hnone {P : ClassDef → Prop} : ∀ c ∈ b.classes, P c := by
    rw [hclasses]
    exact nofun
  have hs : b.Settled := ⟨⟨⟨hr, hc, hnone⟩, by simp [hclasses]⟩, hnone⟩
  obtain ⟨bytes, hwrite, hle⟩ := hs.exists_write_le (demanded_of_length_le hhas hlength hnone hnone)
  exact ⟨bytes, hwrite, hclasses ▸ hle⟩

end Blueprint

end Dalvik
