import Dalvik.Assembly.Data
import Dalvik.Proofs.Assembly.Sections

/-!
# The data of a file stand where their tables say

`Blueprint.writeData_spec`: once the data are written, their sections stand one behind
the other, the draft has noted them for the map, and tables have the offsets of their
items. By these tables the items are found in every file that the draft stands in
(`Blueprint.DataOf.stand`). Sets of annotations, lists of them and directories are not
aligned one by one; they stay aligned because they consist of words.
-/

namespace Dalvik

namespace Blueprint

/-- The tables of all sections of data. -/
structure DataTables extends DataOffsets where
  annotations : Std.HashMap AnnotationItem Nat
  sets : Members.SetOffsets
  parameters : Std.HashMap MethodSig Nat
  debug : Std.HashMap MethodSig Nat
  code : Std.HashMap MethodSig Nat

/-- Items that have been made stand in a file where a table says. -/
def MadeStand {κ : Type} [BEq κ] [Hashable κ] (bytes : Bytes) (made : Result (List (κ × List UInt8)))
    (table : Std.HashMap κ Nat) : Prop :=
  ∃ items, made = .ok items ∧ Draft.Stands bytes items table

/-- The data stand in a file where their tables say. -/
structure DataStand (b : Blueprint) (bytes : Bytes) (t : DataTables) : Prop where
  strings : Draft.Stands bytes b.stringItems t.strings
  typeLists : MadeStand bytes b.typeListItems t.typeLists
  arrays : MadeStand bytes b.arrayItems t.arrays
  annotations : MadeStand bytes b.annotationItems t.annotations
  sets : MadeStand bytes (b.annotationSetItems t.annotations) t.sets
  parameters : Draft.Stands bytes (b.parameterItems t.sets) t.parameters
  directories : Draft.Stands bytes (b.directoryItems t.sets t.parameters) t.directories
  debug : MadeStand bytes b.debugItems t.debug
  code : MadeStand bytes (b.codeItems t.debug) t.code
  classData : MadeStand bytes (b.classDataItems t.code) t.classData

/-- The kinds of the sections of data, in the order in which they are written. -/
def dataOrder : List ItemType :=
  [.stringData, .typeList, .encodedArray, .annotationItem, .annotationSet, .annotationSetRefList,
    .annotationsDirectory, .debugInfo, .code, .classData, .hiddenApi]

/-- The section of a kind consists of items that have been made, and a table has their
offsets. -/
def MadeOf {κ : Type} [BEq κ] [Hashable κ] (sections : List (ItemType × Run)) (type : ItemType)
    (made : Result (List (κ × List UInt8))) (table : Std.HashMap κ Nat) : Prop :=
  ∃ items, made = .ok items ∧ Draft.TableOf sections type items table

/-- The sections of the data consist of the items of a blueprint, and the tables have
their offsets. -/
structure DataOf (b : Blueprint) (t : DataTables) (sections : List (ItemType × Run)) : Prop where
  strings : Draft.TableOf sections .stringData b.stringItems t.strings
  typeLists : MadeOf sections .typeList b.typeListItems t.typeLists
  arrays : MadeOf sections .encodedArray b.arrayItems t.arrays
  annotations : MadeOf sections .annotationItem b.annotationItems t.annotations
  sets : MadeOf sections .annotationSet (b.annotationSetItems t.annotations) t.sets
  parameters : Draft.TableOf sections .annotationSetRefList (b.parameterItems t.sets) t.parameters
  directories : Draft.TableOf sections .annotationsDirectory (b.directoryItems t.sets t.parameters) t.directories
  debug : MadeOf sections .debugInfo b.debugItems t.debug
  code : MadeOf sections .code (b.codeItems t.debug) t.code
  classData : MadeOf sections .classData (b.classDataItems t.code) t.classData
  hiddenApi : ∃ table, Draft.TableOf sections .hiddenApi b.hiddenApiItems table

section

variable {sections sections' : List (ItemType × Run)}

namespace MadeOf

variable {κ : Type} [BEq κ] [Hashable κ] {type : ItemType} {made : Result (List (κ × List UInt8))}
  {table : Std.HashMap κ Nat}

theorem mono (h : MadeOf sections type made table) (hsub : sections ⊆ sections') :
    MadeOf sections' type made table := by
  obtain ⟨items, hmade, htable⟩ := h
  exact ⟨items, hmade, htable.mono hsub⟩

theorem stand (h : MadeOf sections type made table) {d : Draft} {base : Nat} (hd : d.Laid base sections)
    (hbase : 0 < base) {bytes : Bytes} (hin : d.out.In bytes) : MadeStand bytes made table := by
  obtain ⟨items, hmade, htable⟩ := h
  exact ⟨items, hmade, htable.stands hd hbase hin⟩

end MadeOf

namespace DataOf

variable {b : Blueprint} {t : DataTables}

/-- More sections do no harm. -/
theorem mono (h : b.DataOf t sections) (hsub : sections ⊆ sections') : b.DataOf t sections' where
  strings := h.strings.mono hsub
  typeLists := h.typeLists.mono hsub
  arrays := h.arrays.mono hsub
  annotations := h.annotations.mono hsub
  sets := h.sets.mono hsub
  parameters := h.parameters.mono hsub
  directories := h.directories.mono hsub
  debug := h.debug.mono hsub
  code := h.code.mono hsub
  classData := h.classData.mono hsub
  hiddenApi := by
    obtain ⟨table, htable⟩ := h.hiddenApi
    exact ⟨table, htable.mono hsub⟩

/-- The data stand in every file that the draft stands in. -/
theorem stand (h : b.DataOf t sections) {d : Draft} {base : Nat} (hd : d.Laid base sections) (hbase : 0 < base)
    {bytes : Bytes} (hin : d.out.In bytes) : b.DataStand bytes t where
  strings := h.strings.stands hd hbase hin
  typeLists := h.typeLists.stand hd hbase hin
  arrays := h.arrays.stand hd hbase hin
  annotations := h.annotations.stand hd hbase hin
  sets := h.sets.stand hd hbase hin
  parameters := h.parameters.stands hd hbase hin
  directories := h.directories.stands hd hbase hin
  debug := h.debug.stand hd hbase hin
  code := h.code.stand hd hbase hin
  classData := h.classData.stand hd hbase hin

end DataOf

end

/-! ## Items take up room -/

section room

variable (b : Blueprint)

theorem stringItems_ne_nil : ∀ item ∈ b.stringItems, item.2 ≠ [] := fun item hitem => by
  obtain ⟨s, -, rfl⟩ := List.mem_map.mp hitem
  simp [Write.stringData]

variable {b}

theorem typeListItems_ne_nil {items : List (List String × List UInt8)} (h : b.typeListItems = .ok items) :
    ∀ item ∈ items, item.2 ≠ [] := fun item hitem => by
  obtain ⟨types, -, h⟩ := Result.exists_of_mem_mapM h hitem
  obtain ⟨entries, -, h⟩ := Result.bind_eq_ok h
  cases h
  exact Layout.write_sizedList_ne_nil _

theorem arrayItems_ne_nil {items : List (List Value × List UInt8)} (h : b.arrayItems = .ok items) :
    ∀ item ∈ items, item.2 ≠ [] := fun item hitem => by
  obtain ⟨values, -, h⟩ := Result.exists_of_mem_mapM h hitem
  obtain ⟨form, hform, h⟩ := Result.bind_eq_ok h
  obtain ⟨body, -, hform⟩ := Result.bind_eq_ok hform
  cases h
  cases hform
  exact List.append_ne_nil_of_left_ne_nil (Leb128.encodeUnsigned_ne_nil _) _

theorem annotationItems_ne_nil {items : List (AnnotationItem × List UInt8)} (h : b.annotationItems = .ok items) :
    ∀ item ∈ items, item.2 ≠ [] := fun item hitem => by
  obtain ⟨a, -, h⟩ := Result.exists_of_mem_mapM h hitem
  obtain ⟨body, -, h⟩ := Result.bind_eq_ok h
  cases h
  exact List.cons_ne_nil _ _

theorem exists_offsets_of_mem {offsets : Std.HashMap AnnotationItem Nat}
    {items : List (List AnnotationItem × List UInt8)} (h : b.annotationSetItems offsets = .ok items)
    {item : List AnnotationItem × List UInt8} (hitem : item ∈ items) :
    ∃ entries : List OffsetEntry, item.2 = Layout.write (SizedList.ofItems entries) := by
  obtain ⟨set, -, h⟩ := Result.exists_of_mem_mapM h hitem
  obtain ⟨entries, -, h⟩ := Result.bind_eq_ok h
  cases h
  exact ⟨_, rfl⟩

theorem exists_directory_of_mem {sets : Members.SetOffsets} {parameters : Std.HashMap MethodSig Nat}
    {item : String × List UInt8} (hitem : item ∈ b.directoryItems sets parameters) :
    ∃ directory : DirectoryItem, item.2 = Layout.write directory := by
  obtain ⟨⟨type, directory⟩, -, h⟩ := List.mem_filterMap.mp hitem
  dsimp only at h
  split at h
  · cases h
  · cases h
    exact ⟨directory, rfl⟩

theorem annotationSetItems_ne_nil {offsets : Std.HashMap AnnotationItem Nat}
    {items : List (List AnnotationItem × List UInt8)} (h : b.annotationSetItems offsets = .ok items) :
    ∀ item ∈ items, item.2 ≠ [] := fun item hitem => by
  obtain ⟨entries, hform⟩ := exists_offsets_of_mem h hitem
  rw [hform]
  exact Layout.write_sizedList_ne_nil _

theorem parameterItems_ne_nil (sets : Members.SetOffsets) : ∀ item ∈ b.parameterItems sets, item.2 ≠ [] :=
  fun item hitem => by
    obtain ⟨⟨c, m⟩, -, rfl⟩ := List.mem_map.mp hitem
    exact Layout.write_sizedList_ne_nil _

theorem directoryItems_ne_nil (sets : Members.SetOffsets) (parameters : Std.HashMap MethodSig Nat) :
    ∀ item ∈ b.directoryItems sets parameters, item.2 ≠ [] := fun item hitem => by
  obtain ⟨directory, hform⟩ := exists_directory_of_mem hitem
  refine List.length_pos_iff.mp ?_
  rw [hform, DirectoryItem.length_write]
  omega

theorem debugItems_ne_nil {items : List (MethodSig × List UInt8)} (h : b.debugItems = .ok items) :
    ∀ item ∈ items, item.2 ≠ [] := fun item hitem => by
  obtain ⟨items?, hitems, h⟩ := Result.bind_eq_ok h
  cases h
  obtain ⟨item?, hmem, rfl⟩ := List.mem_filterMap.mp hitem
  obtain ⟨⟨c, m⟩, -, h⟩ := Result.exists_of_mem_mapM hitems hmem
  replace h : b.debugItem? c m = .ok (some item) := h
  unfold debugItem? at h
  dsimp only at h
  split at h
  · cases h
  · split at h
    · cases h
    · obtain ⟨form, hform, h⟩ := Result.bind_eq_ok h
      cases h
      obtain ⟨names, -, hform⟩ := Result.bind_eq_ok (Result.within_eq_ok hform)
      obtain ⟨body, -, hform⟩ := Result.bind_eq_ok hform
      cases hform
      simp [Write.uleb128, Leb128.encodeUnsigned_ne_nil]

theorem codeItems_ne_nil {debugOffsets : Std.HashMap MethodSig Nat} {items : List (MethodSig × List UInt8)}
    (h : b.codeItems debugOffsets = .ok items) : ∀ item ∈ items, item.2 ≠ [] := fun item hitem => by
  obtain ⟨items?, hitems, h⟩ := Result.bind_eq_ok h
  cases h
  obtain ⟨item?, hmem, rfl⟩ := List.mem_filterMap.mp hitem
  obtain ⟨⟨c, m⟩, -, h⟩ := Result.exists_of_mem_mapM hitems hmem
  replace h : b.codeItem? debugOffsets c m = .ok (some item) := h
  unfold codeItem? at h
  split at h
  · cases h
  · obtain ⟨form, hform, h⟩ := Result.bind_eq_ok h
    cases h
    obtain ⟨indexed, -, hform⟩ := Result.bind_eq_ok (Result.within_eq_ok hform)
    obtain ⟨units, -, hform⟩ := Result.bind_eq_ok hform
    obtain ⟨tryCount, -, hform⟩ := Result.bind_eq_ok hform
    obtain ⟨tries, -, hform⟩ := Result.bind_eq_ok hform
    cases hform
    refine List.length_pos_iff.mp ?_
    simp only [List.length_append, Write.length_ushort]
    omega

theorem classDataItems_ne_nil {codeOffsets : Std.HashMap MethodSig Nat} {items : List (String × List UInt8)}
    (h : b.classDataItems codeOffsets = .ok items) : ∀ item ∈ items, item.2 ≠ [] := fun item hitem => by
  obtain ⟨c, -, h⟩ := Result.exists_of_mem_mapM h hitem
  obtain ⟨form, hform, h⟩ := Result.bind_eq_ok h
  cases h
  obtain ⟨staticFields, -, hform⟩ := Result.bind_eq_ok hform
  obtain ⟨instanceFields, -, hform⟩ := Result.bind_eq_ok hform
  obtain ⟨directMethods, -, hform⟩ := Result.bind_eq_ok hform
  obtain ⟨virtualMethods, -, hform⟩ := Result.bind_eq_ok hform
  cases hform
  simp [Members.writeCount, Write.uleb128, Leb128.encodeUnsigned_ne_nil]

theorem hiddenApiItems_ne_nil : ∀ item ∈ b.hiddenApiItems, item.2 ≠ [] := fun item hitem => by
  unfold hiddenApiItems at hitem
  split at hitem
  · rw [List.mem_singleton.mp hitem]
    refine List.length_pos_iff.mp ?_
    simp only [Members.writeHiddenApi, List.length_append, Write.length_uint]
    omega
  · cases hitem

end room

/-! ## Items that consist of words

Sets of annotations, lists of them and directories follow each other without padding.
-/

section words

variable {b : Blueprint}

theorem length_offsetList_mod (entries : List OffsetEntry) :
    (Layout.write (SizedList.ofItems entries)).length % 4 = 0 := by
  rw [Layout.length_sizedList fun entry _ => Layout.length_offsetEntry entry]
  omega

theorem annotationSetItems_words {offsets : Std.HashMap AnnotationItem Nat}
    {items : List (List AnnotationItem × List UInt8)} (h : b.annotationSetItems offsets = .ok items) :
    ∀ item ∈ items, item.2.length % 4 = 0 := fun item hitem => by
  obtain ⟨entries, hform⟩ := exists_offsets_of_mem h hitem
  rw [hform]
  exact length_offsetList_mod entries

theorem parameterItems_words (sets : Members.SetOffsets) : ∀ item ∈ b.parameterItems sets, item.2.length % 4 = 0 :=
  fun item hitem => by
    obtain ⟨⟨c, m⟩, -, rfl⟩ := List.mem_map.mp hitem
    exact length_offsetList_mod _

theorem directoryItems_words (sets : Members.SetOffsets) (parameters : Std.HashMap MethodSig Nat) :
    ∀ item ∈ b.directoryItems sets parameters, item.2.length % 4 = 0 := fun item hitem => by
  obtain ⟨directory, hform⟩ := exists_directory_of_mem hitem
  rw [hform, DirectoryItem.length_write]
  omega

end words

/-! ## Writing the data -/

/-- Written data stand where their tables say, section behind section. -/
theorem writeData_spec {b : Blueprint} {base : Nat} {offsets : DataOffsets} {d : Draft}
    (h : b.writeData (Draft.startingAt base) = .ok (offsets, d)) : d.out.base = base ∧
      ∃ (t : DataTables) (sections : List (ItemType × Run)), offsets = t.toDataOffsets ∧
        sections.map Prod.fst = dataOrder ∧ d.Laid base sections ∧ b.DataOf t sections := by
  unfold writeData at h
  obtain ⟨strings, d1, p1, w1, h1⟩ := Draft.Write.section_eq_ok rfl h
  obtain ⟨typeListItems, typeLists, d2, p2, htypeLists, w2, h2⟩ := Draft.Write.made_eq_ok rfl h1
  obtain ⟨arrayItems, arrays, d3, p3, harrays, w3, h3⟩ := Draft.Write.made_eq_ok rfl h2
  obtain ⟨annotationItems, annotations, d4, p4, hannotations, w4, h4⟩ := Draft.Write.made_eq_ok rfl h3
  -- the next three sections are aligned once; each leaves the position aligned for the one behind it
  obtain ⟨d4', hgrows, hsections, hwords, h4'⟩ := Draft.Write.align_eq_ok (by decide) h4
  obtain ⟨setItems, hsets, h4''⟩ := Draft.Write.lift_eq_ok h4'
  obtain ⟨sets, d5, p5, w5, hwords5, h5⟩ :=
    Draft.Write.unaligned_eq_ok 4 rfl (annotationSetItems_words hsets) hwords h4''
  obtain ⟨parameters, d6, p6, w6, hwords6, h6⟩ :=
    Draft.Write.unaligned_eq_ok 4 rfl (parameterItems_words sets) hwords5 h5
  obtain ⟨directories, d7, p7, w7, -, h7⟩ :=
    Draft.Write.unaligned_eq_ok 4 rfl (directoryItems_words sets parameters) hwords6 h6
  obtain ⟨debugItems, debug, d8, p8, hdebug, w8, h8⟩ := Draft.Write.made_eq_ok rfl h7
  obtain ⟨codeItems, code, d9, p9, hcode, w9, h9⟩ := Draft.Write.made_eq_ok rfl h8
  obtain ⟨classDataItems, classData, d10, p10, hclassData, w10, h10⟩ := Draft.Write.made_eq_ok rfl h9
  obtain ⟨_, d11, hdiscard, h11⟩ := Draft.Write.bind_eq_ok h10
  obtain ⟨hiddenApi, hwrite⟩ := Draft.Write.discard_eq_ok hdiscard
  obtain ⟨p11, w11⟩ := Draft.writeSection_writes rfl hwrite
  cases h11
  have l1 := w1.laid b.stringItems_ne_nil (Draft.laid_startingAt base)
  have l2 := w2.laid (typeListItems_ne_nil htypeLists) l1
  have l3 := w3.laid (arrayItems_ne_nil harrays) l2
  have l4 := w4.laid (annotationItems_ne_nil hannotations) l3
  have l4' := l4.extend hgrows hsections
  have l5 := w5.laid (annotationSetItems_ne_nil hsets) l4'
  have l6 := w6.laid (parameterItems_ne_nil sets) l5
  have l7 := w7.laid (directoryItems_ne_nil sets parameters) l6
  have l8 := w8.laid (debugItems_ne_nil hdebug) l7
  have l9 := w9.laid (codeItems_ne_nil hcode) l8
  have l10 := w10.laid (classDataItems_ne_nil hclassData) l9
  have l11 := w11.laid hiddenApiItems_ne_nil l10
  refine ⟨?_, ⟨⟨strings, typeLists, arrays, directories, classData⟩, annotations, sets, parameters, debug, code⟩,
    _, rfl, rfl, l11, ?_⟩
  · rw [w11.grows.1, w10.grows.1, w9.grows.1, w8.grows.1, w7.grows.1, w6.grows.1, w5.grows.1, hgrows.1, w4.grows.1,
      w3.grows.1, w2.grows.1, w1.grows.1]
    rfl
  · exact {
      strings := w1.tableOf (by simp)
      typeLists := ⟨_, htypeLists, w2.tableOf (by simp)⟩
      arrays := ⟨_, harrays, w3.tableOf (by simp)⟩
      annotations := ⟨_, hannotations, w4.tableOf (by simp)⟩
      sets := ⟨_, hsets, w5.tableOf (by simp)⟩
      parameters := w6.tableOf (by simp)
      directories := w7.tableOf (by simp)
      debug := ⟨_, hdebug, w8.tableOf (by simp)⟩
      code := ⟨_, hcode, w9.tableOf (by simp)⟩
      classData := ⟨_, hclassData, w10.tableOf (by simp)⟩
      hiddenApi := ⟨_, w11.tableOf (by simp)⟩ }

end Blueprint

end Dalvik
