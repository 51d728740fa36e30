import Dalvik.Image.Annotations
import Dalvik.Proofs.Order.Value
import Dalvik.Proofs.Assembly.Resolution

/-!
# Annotations are read as they were written

A set of annotations is written in the order of the types and, within a type, of
the places of its annotations. An image of a written file gives back each annotation
once and in this order, with its elements in the order of their names
(`Blueprint.Opens.annotationSet_eq`); annotations that are in this form already come
back as they are (`AnnotationItem.Canonical.kept_eq`).
-/

namespace Dalvik

theorem Elements.sorted_sorted (elements : Elements) : elements.sorted.sorted = elements.sorted := by
  refine List.mergeSort_of_pairwise (mergeSort_pairwise_isLE_on Prod.fst Utf16.compare elements)

namespace AnnotationItem

/-- The annotation with the elements of all annotations in it in the order of their
names. -/
def arrangedWithin (a : AnnotationItem) : AnnotationItem :=
  { a with elements := Elements.sorted (Value.arrangedElements a.elements) }

/-- The order of annotations in a file: by type, then by visibility and
elements. -/
def fileOrder : AnnotationItem → AnnotationItem → Ordering :=
  compareLex (fun a b => Utf16.compare a.type b.type) compare

/-- The annotations of a set in the order of a file. -/
def inFileOrder (annotations : List AnnotationItem) : List AnnotationItem :=
  (setOf annotations).mergeSort fun a b => (fileOrder a b).isLE

/-- The annotations that a file gives back. -/
def kept (annotations : List AnnotationItem) : List AnnotationItem :=
  (inFileOrder annotations).map arrangedWithin

/-- A list of annotations in the form in which a file gives it back. -/
structure Canonical (annotations : List AnnotationItem) : Prop where
  arranged : ∀ a ∈ annotations, a.arrangedWithin = a
  ascending : annotations.Pairwise fun a b => fileOrder a b = .lt

theorem arranged_of_arrangedWithin {a : AnnotationItem} (h : a.arrangedWithin = a) : a.arranged = a := by
  rw [← h]
  exact congrArg (mk _ _) (Elements.sorted_sorted _)

instance : Std.TransCmp fileOrder :=
  haveI : Std.TransCmp fun a b : AnnotationItem => Utf16.compare a.type b.type := transCmp_on type Utf16.compare
  inferInstanceAs (Std.TransCmp (compareLex _ _))

instance : Std.LawfulEqCmp fileOrder where
  compare_self := Std.ReflCmp.compare_self
  eq_of_compare h := Std.LawfulEqCmp.eq_of_compare (compareLex_eq_eq.mp h).2

theorem fileOrder_eq_lt {a b : AnnotationItem} : fileOrder a b = .lt ↔
    Utf16.compare a.type b.type = .lt ∨ a.type = b.type ∧ compare a b = .lt := by
  rw [fileOrder, compareLex, Ordering.then_eq_lt, Std.LawfulEqCmp.compare_eq_iff_eq]

theorem inFileOrder_perm (annotations : List AnnotationItem) : (inFileOrder annotations).Perm (setOf annotations) :=
  List.mergeSort_perm ..

theorem mem_inFileOrder {annotations : List AnnotationItem} {a : AnnotationItem} :
    a ∈ inFileOrder annotations ↔ a ∈ annotations.map AnnotationItem.arranged :=
  (inFileOrder_perm annotations).mem_iff.trans mem_setOf

theorem inFileOrder_pairwise (annotations : List AnnotationItem) :
    (inFileOrder annotations).Pairwise fun a b => fileOrder a b = .lt := by
  have hset : (setOf annotations).Nodup := (setOf_pairwise annotations).imp fun hlt heq => by
    rw [heq, @Std.ReflCmp.compare_self _ compare] at hlt
    cases hlt
  have hnodup := (inFileOrder_perm annotations).nodup_iff.mpr hset
  refine ((mergeSort_pairwise_isLE fileOrder (setOf annotations)).and hnodup).imp fun {a b} ⟨hle, hne⟩ => ?_
  cases hc : fileOrder a b with
  | lt => rfl
  | eq => exact absurd (Std.LawfulEqCmp.eq_of_compare hc) hne
  | gt => rw [hc] at hle; cases hle

@[simp] theorem kept_nil : kept [] = [] := by
  simp [kept, inFileOrder, setOf, List.eraseReps, List.eraseRepsBy]

namespace Canonical

variable {annotations : List AnnotationItem} (h : Canonical annotations)

include h

theorem map_arranged : annotations.map AnnotationItem.arranged = annotations :=
  map_eq_self fun a ha => arranged_of_arrangedWithin (h.arranged a ha)

/-- A list in the form of a file comes back as it is. -/
theorem kept_eq : kept annotations = annotations := by
  have horder : inFileOrder annotations = annotations := by
    refine eq_of_pairwise_lt id fileOrder (inFileOrder_pairwise annotations) h.ascending fun a => ?_
    rw [mem_inFileOrder, h.map_arranged]
  rw [kept, horder]
  exact map_eq_self h.arranged

end Canonical

end AnnotationItem

/-! ## Sorted entries -/

namespace Members

/-- The order of the entries of a table: by index, then by offset. -/
def entryLE (a b : UInt32 × UInt32) : Bool :=
  a.1 < b.1 || a.1 == b.1 && a.2 ≤ b.2

theorem entryLE_iff {a b : UInt32 × UInt32} :
    entryLE a b = true ↔ a.1.toNat < b.1.toNat ∨ a.1.toNat = b.1.toNat ∧ a.2.toNat ≤ b.2.toNat := by
  simp only [entryLE, Bool.or_eq_true, Bool.and_eq_true, beq_iff_eq, decide_eq_true_eq, UInt32.lt_iff_toNat_lt,
    UInt32.le_iff_toNat_le, ← UInt32.toNat_inj]

theorem sortedEntries_perm (entries : List (UInt32 × UInt32)) : (sortedEntries entries).Perm entries :=
  List.mergeSort_perm ..

theorem sortedEntries_pairwise (entries : List (UInt32 × UInt32)) :
    (sortedEntries entries).Pairwise fun a b => entryLE a b = true := by
  have htrans : ∀ a b c, entryLE a b = true → entryLE b c = true → entryLE a c = true := by
    intro a b c hab hbc
    rw [entryLE_iff] at *
    omega
  have htotal : ∀ a b, (entryLE a b || entryLE b a) = true := by
    intro a b
    rw [Bool.or_eq_true, entryLE_iff, entryLE_iff]
    omega
  exact List.pairwise_mergeSort htrans htotal entries

/-- Entries that are in order already come out as they are. -/
theorem sortedEntries_eq {entries sorted : List (UInt32 × UInt32)} (hperm : entries.Perm sorted)
    (h : sorted.Pairwise fun a b => entryLE a b = true) : sortedEntries entries = sorted := by
  refine ((sortedEntries_perm entries).trans hperm).eq_of_pairwise (fun a b _ _ hab hba => ?_)
    (sortedEntries_pairwise entries) h
  rw [entryLE_iff] at hab hba
  exact Prod.ext (UInt32.toNat_inj.mp (by omega)) (UInt32.toNat_inj.mp (by omega))

end Members

/-! ## The entries of a set -/

namespace Entry

theorem annotationItem_mem {annotations : List AnnotationItem} {a : AnnotationItem} (ha : a ∈ annotations) :
    annotationItem a.arranged ∈ ofAnnotationSet annotations := by
  have hne : annotations.isEmpty = false := by simpa using List.ne_nil_of_mem ha
  rw [ofAnnotationSet, hne]
  refine List.mem_append_left _ (List.mem_flatMap.mpr ⟨a, ha, ?_⟩)
  exact List.mem_append_right _ (List.mem_singleton_self _)

theorem type_mem {annotations : List AnnotationItem} {a : AnnotationItem} (ha : a ∈ annotations) :
    type a.type ∈ ofAnnotationSet annotations := by
  have hne : annotations.isEmpty = false := by simpa using List.ne_nil_of_mem ha
  rw [ofAnnotationSet, hne]
  refine List.mem_append_left _ (List.mem_flatMap.mpr ⟨a, ha, ?_⟩)
  exact List.mem_append_left _ (List.mem_append_left _ (List.mem_cons_of_mem _ (List.mem_singleton_self _)))

theorem annotationSet_mem {annotations : List AnnotationItem} (hne : annotations.isEmpty = false) :
    annotationSet (AnnotationItem.setOf annotations) ∈ ofAnnotationSet annotations := by
  rw [ofAnnotationSet, hne]
  exact List.mem_append_right _ (List.mem_singleton_self _)

end Entry

/-! ## Sets of annotations in an image -/

/-- A list of offsets stands for the annotations at these offsets. -/
theorem Image.annotationSet_spec {image : Image} (hsize : image.bytes.size < extentBound) {offset : Nat}
    (hne : offset ≠ 0) {offsets : List UInt32} (hoffsets : ∀ o ∈ offsets, o.toNat < extentBound)
    (hheld : image.bytes.Holds offset (Layout.write (SizedList.ofItems (offsets.map OffsetEntry.mk)))) :
    (image.annotationSet offset).count = offsets.length ∧ ∀ i o, offsets[i]? = some o →
      (image.annotationSet offset).get i = image.annotationAt o.toNat := by
  have hlength : (Layout.writeItems (offsets.map OffsetEntry.mk)).length = (offsets.map OffsetEntry.mk).length * 4 :=
    length_writeItems fun entry _ => Write.length_uint entry.offset
  have hle : _ + (Layout.writeItems (offsets.map OffsetEntry.mk)).length ≤ _ := hheld.right.le_size
  rw [List.length_map] at hlength
  have hcount : (UInt32.ofNat (offsets.map OffsetEntry.mk).length).toNat = offsets.length := by
    rw [List.length_map]
    exact UInt32.toNat_ofNat_of_lt' (Nat.lt_trans (Nat.lt_of_le_of_lt (by omega) hsize) (by decide))
  have hread : image.readAt Read.smallUint offset = .ok (UInt32.ofNat (offsets.map OffsetEntry.mk).length) :=
    (Read.yields_smallUint (by omega)).at? hheld.left
  rw [Image.annotationSet, if_neg hne, hread]
  refine ⟨hcount, fun i o ho => ?_⟩
  have hentry : (offsets.map OffsetEntry.mk)[i]? = some ⟨o⟩ := by rw [List.getElem?_map, ho]; rfl
  have hholds : image.bytes.Holds (offset + 4 + i * 4) (Write.uint o) :=
    holds_writeItems (fun entry _ => Write.length_uint entry.offset) hheld.right hentry
  have hfound : image.readAt Read.smallUint (offset + 4 + 4 * i) = .ok o := by
    rw [Nat.mul_comm]
    exact (Read.yields_smallUint (hoffsets o (List.mem_of_getElem? ho))).at? hholds
  show (image.readAt Read.smallUint (offset + 4 + 4 * i) >>= _) = _
  rw [hfound]
  rfl

namespace Blueprint.Opens

open Read Members

variable {b : Blueprint} {t : DataTables} {image : Image} (h : b.Opens t image) (hr : b.pools.Ranked)

include h hr

theorem type_index_lt_iff {d e : String} (hd : b.pools.Has (.type d)) (he : b.pools.Has (.type e)) :
    (b.pools.types.indexOrNone d).toNat < (b.pools.types.indexOrNone e).toNat ↔ Utf16.compare d e = .lt := by
  have hlength : b.pools.types.sortedKeys.length = b.typeIds.length := (List.length_map _).symm
  rw [h.identified.types.toNat_index hr.types hlength hd, h.identified.types.toNat_index hr.types hlength he,
    hr.type_lt_iff hd he]

variable (hc : b.pools.Closed)

include hc

/-- An annotation stands where the table says. -/
theorem exists_annotationAt {a : AnnotationItem} (ha : b.pools.Has (.annotationItem a)) :
    ∃ stored, image.annotationAt (offsetIn t.annotations a).toNat = .ok stored ∧
      stored.view.toAnnotationItem = .ok a.arrangedWithin ∧ (offsetIn t.annotations a).toNat < extentBound := by
  obtain ⟨item, hitem, hheld, -, hlt⟩ := h.data.annotations.exists_item h.size_lt hr.annotations.nodup (fun _ _ => fst_of_bind)
    (hr.annotations.mem_sortedKeys.mpr ha)
  obtain ⟨body, hbody, hitem⟩ := Result.bind_eq_ok hitem
  cases hitem
  have hle : _ + (body.length + 1) ≤ _ := hheld.le_size
  have hsize := h.size_lt
  obtain ⟨typeIndex, rest, htype, rfl, helements⟩ :=
    Value.exists_decodeElements (h.undoes hr hc) (h.ordered hr hc) hbody (by omega)
  obtain ⟨hindex, hresolved⟩ := (h.undoes hr hc).type htype
  have hcode : (UInt8.ofNat a.visibility.code).toNat = a.visibility.code := by
    cases a.visibility <;> rfl
  have hvisibility : Yields (Read.ofResult (Visibility.ofCode (UInt8.ofNat a.visibility.code).toNat)) [] a.visibility :=
    Value.yields_ofResult (hcode.symm ▸ Visibility.ofCode_code a.visibility)
  have hheld' : image.bytes.Holds (offsetIn t.annotations a).toNat
    ((Write.ubyte (UInt8.ofNat a.visibility.code) ++ Write.uleb128 typeIndex) ++ rest) := hheld
  refine ⟨_, YieldsAt.at? (?read : YieldsAt _ _ (StoredAnnotationItem.mk image a.visibility typeIndex)) hheld'.left,
    ?view, hlt⟩
  case read =>
    exact (yields_ubyte _).bind_at (hvisibility.bind_at ((yields_smallUleb128 hindex).bind_tell _))
  case view =>
    have hread : image.readAt (Value.decodeElements image.valueResolver) _ = _ := helements.at? hheld'.right
    show (image.type typeIndex >>= fun type => image.readAt _ _ >>= fun elements => _) = _
    rw [show image.type typeIndex = .ok a.type from hresolved, Result.ok_bind]
    refine (congrArg (· >>= _) hread).trans ?_
    exact congrArg (fun elements => Except.ok (AnnotationItem.mk _ _ elements)) (Elements.sorted_sorted _)

omit hc in
/-- The annotations of a file stand in their order. -/
theorem annotation_offset_lt {a a' : AnnotationItem} (ha : b.pools.Has (.annotationItem a))
    (ha' : b.pools.Has (.annotationItem a')) (hlt : compare a a' = .lt) :
    (offsetIn t.annotations a).toNat < (offsetIn t.annotations a').toNat := by
  have hoffsets := h.data.annotations.offsetIn_pairwise h.size_lt hr.annotations.nodup (fun _ _ => fst_of_bind)
    fun items hitems => annotationItems_ne_nil hitems
  have hplace := (hr.annotations.place_lt_iff id ha ha').mpr hlt
  exact UInt32.lt_iff_toNat_lt.mp (hr.annotations.rel_of_place_lt hoffsets ha ha' hplace)

omit hc in
/-- The offset of a set of annotations is small. -/
theorem setOffset_lt {annotations : List AnnotationItem} (hhas : ∀ e ∈ Entry.ofAnnotationSet annotations, b.pools.Has e) :
    (setOffset t.sets annotations).toNat < extentBound := by
  cases hempty : annotations.isEmpty with
  | true =>
    rw [setOffset, hempty, if_pos rfl]
    decide
  | false =>
    obtain ⟨item, -, -, -, hlt⟩ := h.data.sets.exists_item h.size_lt hr.annotationSets.nodup
      (fun _ _ => fst_of_bind) (hr.annotationSets.mem_sortedKeys.mpr (hhas _ (Entry.annotationSet_mem hempty)))
    rw [setOffset, hempty]
    exact hlt

omit hc in
/-- Only for no annotations it is the offset of nothing. -/
theorem setOffset_eq_noOffset_iff {annotations : List AnnotationItem}
    (hhas : ∀ e ∈ Entry.ofAnnotationSet annotations, b.pools.Has e) :
    setOffset t.sets annotations = noOffset ↔ annotations = [] := by
  cases hempty : annotations.isEmpty with
  | true => exact iff_of_true (by rw [setOffset, hempty, if_pos rfl]) (List.isEmpty_iff.mp hempty)
  | false =>
    obtain ⟨item, -, -, hne, -⟩ := h.data.sets.exists_item h.size_lt hr.annotationSets.nodup
      (fun _ _ => fst_of_bind) (hr.annotationSets.mem_sortedKeys.mpr (hhas _ (Entry.annotationSet_mem hempty)))
    rw [setOffset, hempty]
    exact iff_of_false hne (List.isEmpty_eq_false_iff.mp hempty)

variable {annotations : List AnnotationItem} (hhas : ∀ e ∈ Entry.ofAnnotationSet annotations, b.pools.Has e)

include hhas

omit h hr hc in
/-- The annotations of a set are in the pools, and so are their types. -/
theorem has_of_mem_inFileOrder {a : AnnotationItem} (ha : a ∈ AnnotationItem.inFileOrder annotations) :
    b.pools.Has (.annotationItem a) ∧ b.pools.Has (.type a.type) := by
  obtain ⟨original, hmem, rfl⟩ := List.mem_map.mp (AnnotationItem.mem_inFileOrder.mp ha)
  exact ⟨hhas _ (Entry.annotationItem_mem hmem), hhas (.type original.type) (Entry.type_mem hmem)⟩

/-- The entries of a set are sorted into the order of its annotations. -/
theorem sortedEntries_annotations {entries : List (UInt32 × UInt32)}
    (hentries : ((AnnotationItem.setOf annotations).mapM fun a => do
      return (← b.pools.numbering.type a.type, offsetIn t.annotations a)) = .ok entries) :
    sortedEntries entries = (AnnotationItem.inFileOrder annotations).map fun a =>
      (b.pools.types.indexOrNone a.type, offsetIn t.annotations a) := by
  have hperm := (AnnotationItem.inFileOrder_perm annotations).symm
  have htypes : ∀ a ∈ AnnotationItem.setOf annotations, (do
      return (← b.pools.numbering.type a.type, offsetIn t.annotations a) : Result (UInt32 × UInt32)) =
      .ok (b.pools.types.indexOrNone a.type, offsetIn t.annotations a) := by
    intro a ha
    rw [((hr.numbers hc).type a.type).1 (has_of_mem_inFileOrder hhas (hperm.mem_iff.mp ha)).2]
    rfl
  rw [Result.mapM_ok htypes] at hentries
  cases hentries
  have hascending := AnnotationItem.inFileOrder_pairwise annotations
  refine sortedEntries_eq (hperm.map _) (List.pairwise_map.mpr (hascending.imp_of_mem ?_))
  intro a a' ha ha' hprecedes
  have hitem := has_of_mem_inFileOrder hhas ha
  have hitem' := has_of_mem_inFileOrder hhas ha'
  rw [entryLE_iff]
  rcases AnnotationItem.fileOrder_eq_lt.mp hprecedes with hlt | ⟨heq, hlt⟩
  · exact .inl ((h.type_index_lt_iff hr hitem.2 hitem'.2).mpr hlt)
  · exact .inr ⟨by rw [heq], Nat.le_of_lt (h.annotation_offset_lt hr hitem.1 hitem'.1 hlt)⟩

/-- The set of annotations at the offset that it is written at. -/
theorem annotationSet_eq : AnnotationView.collect ((image.annotationSet (setOffset t.sets annotations).toNat).map
    StoredAnnotationItem.view) = .ok (AnnotationItem.kept annotations) := by
  cases hempty : annotations.isEmpty with
  | true =>
    rw [List.isEmpty_iff.mp hempty, AnnotationItem.kept_nil]
    rfl
  | false =>
    obtain ⟨item, hitem, hheld, hne, -⟩ := h.data.sets.exists_item h.size_lt hr.annotationSets.nodup
      (fun _ _ => fst_of_bind) (hr.annotationSets.mem_sortedKeys.mpr (hhas _ (Entry.annotationSet_mem hempty)))
    obtain ⟨entries, hentries, hitem⟩ := Result.bind_eq_ok hitem
    cases hitem
    rw [sortedEntries_annotations h hr hc hhas hentries, List.map_map] at hheld
    have hoffset : (setOffset t.sets annotations).toNat ≠ 0 := fun hzero => by
      rw [setOffset, hempty] at hzero
      exact hne (UInt32.toNat_inj.mp hzero)
    have hform : image.bytes.Holds (setOffset t.sets annotations).toNat (Layout.write (SizedList.ofItems
        (((AnnotationItem.inFileOrder annotations).map (offsetIn t.annotations)).map OffsetEntry.mk))) := by
      rw [setOffset, hempty, List.map_map]
      exact hheld
    have hstored : ∀ a ∈ AnnotationItem.inFileOrder annotations, ∃ stored,
        image.annotationAt (offsetIn t.annotations a).toNat = .ok stored ∧
        stored.view.toAnnotationItem = .ok a.arrangedWithin ∧ (offsetIn t.annotations a).toNat < extentBound :=
      fun a ha => h.exists_annotationAt hr hc (has_of_mem_inFileOrder hhas ha).1
    have hlt : ∀ o ∈ (AnnotationItem.inFileOrder annotations).map (offsetIn t.annotations), o.toNat < extentBound := by
      intro o ho
      obtain ⟨a, ha, rfl⟩ := List.mem_map.mp ho
      obtain ⟨_, -, -, hlt⟩ := hstored a ha
      exact hlt
    obtain ⟨hcount, hget⟩ := Image.annotationSet_spec h.size_lt hoffset hlt hform
    rw [List.length_map] at hcount
    refine Result.collect_eq (hcount.trans (List.length_map _).symm) fun i a' ha' => ?_
    rw [AnnotationItem.kept, List.getElem?_map, Option.map_eq_some_iff] at ha'
    obtain ⟨a, ha, rfl⟩ := ha'
    obtain ⟨stored, hat, hview, -⟩ := hstored a (List.mem_of_getElem? ha)
    have hitem := hget i (offsetIn t.annotations a) (by rw [List.getElem?_map, ha]; rfl)
    show (((image.annotationSet _).get i).map _ >>= _) = _
    rw [hitem, hat]
    exact hview

end Blueprint.Opens

end Dalvik
