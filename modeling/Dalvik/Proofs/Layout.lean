import Dalvik.Layout.Header
import Dalvik.Layout.Items
import Dalvik.Proofs.Numbers

/-!
# Items of fixed layout are read as they were written

Each kind of item is read from its written form, as long as those of its fields
that are sizes, offsets or indices of 32 bits are below `extentBound`. So are
lists of items (`yields_sizedList`) and the header (`Header.yields_read`).
-/

namespace Dalvik

/-- A small index is not that of nothing. -/
theorem ne_noIndex_of_lt {index : UInt32} (h : index.toNat < extentBound) : index ≠ noIndex := by
  intro hnone
  rw [hnone] at h
  exact absurd h (by decide)

namespace Layout

open Read

/-- The layout reads the item as it writes it. -/
def Reads {ι : Type} [Layout ι] (item : ι) : Prop :=
  Yields Layout.read (Layout.write item) item

/-! ## Identifiers -/

theorem reads_section (s : Section) : Reads s :=
  (yields_uint s.size).bind ((yields_uint s.offset).bind_pure _)

theorem reads_stringId {i : StringId} (h : i.dataOffset.toNat < extentBound) : Reads i :=
  (yields_smallUint h).bind_pure StringId.mk

theorem reads_typeId {i : TypeId} (h : i.descriptor.toNat < extentBound) : Reads i :=
  (yields_smallUint h).bind_pure TypeId.mk

theorem reads_callSiteId {i : CallSiteId} (h : i.valuesOffset.toNat < extentBound) : Reads i :=
  (yields_smallUint h).bind_pure CallSiteId.mk

theorem reads_typeEntry (i : TypeEntry) : Reads i :=
  (yields_ushort i.type).bind_pure TypeEntry.mk

theorem reads_offsetEntry {i : OffsetEntry} (h : i.offset.toNat < extentBound) : Reads i :=
  (yields_smallUint h).bind_pure OffsetEntry.mk

theorem reads_protoId {i : ProtoId} (hshorty : i.shorty.toNat < extentBound)
    (hreturn : i.returnType.toNat < extentBound) (hparameters : i.parametersOffset.toNat < extentBound) : Reads i := by
  show Yields _ (Write.uint _ ++ Write.uint _ ++ Write.uint _) i
  rw [List.append_assoc]
  exact (yields_smallUint hshorty).bind ((yields_smallUint hreturn).bind ((yields_smallUint hparameters).bind_pure _))

theorem reads_fieldId {i : FieldId} (hname : i.name.toNat < extentBound) : Reads i := by
  show Yields _ (Write.ushort _ ++ Write.ushort _ ++ Write.uint _) i
  rw [List.append_assoc]
  exact (yields_ushort _).bind ((yields_ushort _).bind ((yields_smallUint hname).bind_pure _))

theorem reads_methodId {i : MethodId} (hname : i.name.toNat < extentBound) : Reads i := by
  show Yields _ (Write.ushort _ ++ Write.ushort _ ++ Write.uint _) i
  rw [List.append_assoc]
  exact (yields_ushort _).bind ((yields_ushort _).bind ((yields_smallUint hname).bind_pure _))

theorem reads_handleId (i : MethodHandleId) : Reads i := by
  show Yields _ (Write.ushort _ ++ Write.ushort _ ++ Write.ushort _ ++ Write.ushort _) i
  rw [List.append_assoc, List.append_assoc]
  exact (yields_ushort _).bind ((yields_skip (Write.length_ushort 0)).bind
    ((yields_ushort _).bind ((yields_skip (Write.length_ushort 0)).bind_pure _)))

theorem reads_mapItem {i : MapItem} (hsize : i.size.toNat < extentBound) (hoffset : i.offset.toNat < extentBound) :
    Reads i := by
  show Yields _ (Write.ushort _ ++ Write.ushort _ ++ Write.uint _ ++ Write.uint _) i
  rw [List.append_assoc, List.append_assoc]
  exact (yields_ushort _).bind ((yields_skip (Write.length_ushort 0)).bind
    ((yields_smallUint hsize).bind ((yields_smallUint hoffset).bind_pure _)))

theorem reads_classDefItem (i : ClassDefItem) : Reads i := by
  show Yields _ (Write.uint _ ++ Write.uint _ ++ Write.uint _ ++ Write.uint _ ++ Write.uint _ ++ Write.uint _ ++
    Write.uint _ ++ Write.uint _) i
  simp only [List.append_assoc]
  exact (yields_uint _).bind ((yields_uint _).bind ((yields_uint _).bind ((yields_uint _).bind
    ((yields_uint _).bind ((yields_uint _).bind ((yields_uint _).bind ((yields_uint _).bind_pure _)))))))

/-! ## The sizes of identifiers -/

theorem length_stringId (i : StringId) : (Layout.write i).length = StringId.byteSize := by
  simp [Layout.write, StringId.byteSize]

theorem length_typeId (i : TypeId) : (Layout.write i).length = TypeId.byteSize := by
  simp [Layout.write, TypeId.byteSize]

theorem length_protoId (i : ProtoId) : (Layout.write i).length = ProtoId.byteSize := by
  simp [Layout.write, ProtoId.byteSize]

theorem length_fieldId (i : FieldId) : (Layout.write i).length = FieldId.byteSize := by
  simp [Layout.write, FieldId.byteSize]

theorem length_methodId (i : MethodId) : (Layout.write i).length = MethodId.byteSize := by
  simp [Layout.write, MethodId.byteSize]

theorem length_classDefItem (i : ClassDefItem) : (Layout.write i).length = ClassDefItem.byteSize := by
  simp [Layout.write, ClassDefItem.byteSize]

theorem length_callSiteId (i : CallSiteId) : (Layout.write i).length = CallSiteId.byteSize := by
  simp [Layout.write, CallSiteId.byteSize]

theorem length_handleId (i : MethodHandleId) : (Layout.write i).length = MethodHandleId.byteSize := by
  simp [Layout.write, MethodHandleId.byteSize]

theorem length_typeEntry (i : TypeEntry) : (Layout.write i).length = 2 :=
  Write.length_ushort _

theorem length_offsetEntry (i : OffsetEntry) : (Layout.write i).length = 4 :=
  Write.length_uint _

theorem length_mapItem (i : MapItem) : (Layout.write i).length = MapItem.byteSize := by
  simp [Layout.write, MapItem.byteSize]

/-! ## Lists of items -/

section lists

variable {ι : Type} [Layout ι] {items : List ι}

theorem forall₂_yields (h : ∀ i ∈ items, Reads i) :
    List.Forall₂ (Yields (Layout.read : Read ι)) (items.map Layout.write) items := by
  rw [List.forall₂_map_left_iff]
  exact List.forall₂_same.mpr h

theorem length_sizedList {size : Nat} (hsize : ∀ i ∈ items, (Layout.write i).length = size) :
    (Layout.write (SizedList.ofItems items)).length = 4 + items.length * size := by
  show (Write.uint _ ++ writeItems items).length = _
  rw [List.length_append, Write.length_uint, writeItems, length_flatMap_of_forall hsize]

theorem write_sizedList_ne_nil (l : SizedList ι) : Layout.write l ≠ [] := by
  show Write.uint _ ++ _ ≠ []
  refine List.length_pos_iff.mp ?_
  rw [List.length_append, Write.length_uint]
  omega

theorem length_le_writeItems (hpos : ∀ i ∈ items, Layout.write i ≠ []) : items.length ≤ (writeItems items).length := by
  have := length_le_length_flatten (List.forall_mem_map.mpr hpos)
  rwa [List.length_map, ← List.flatMap_def] at this

theorem yields_readItems (h : ∀ i ∈ items, Reads i) (hpos : ∀ i ∈ items, Layout.write i ≠ []) :
    Yields (readItems ι items.length) (writeItems items) items := by
  refine .remaining fun count hcount => ?_
  have hle := length_le_writeItems hpos
  rw [if_neg (by omega)]
  have hlist := Yields.listFrom (.item) (forall₂_yields h) 0
  rwa [← List.flatMap_def] at hlist

/-- A list with its count in front. -/
theorem yields_sizedList (hlength : items.length < extentBound) (h : ∀ i ∈ items, Reads i)
    (hpos : ∀ i ∈ items, Layout.write i ≠ []) : Reads (SizedList.ofItems items) := by
  have hcount : (UInt32.ofNat items.length).toNat = items.length :=
    UInt32.toNat_ofNat_of_lt' (Nat.lt_trans hlength (by decide))
  have hitems := yields_readItems h hpos
  rw [← hcount] at hitems
  exact (yields_smallUint (hcount.symm ▸ hlength)).bind (hitems.bind_pure _)

/-- A list that stands in bytes whose size is a size has a length that is one. -/
theorem reads_sizedList_of_holds {bytes : Bytes} {offset : Nat}
    (hbytes : bytes.Holds offset (Layout.write (SizedList.ofItems items))) (hsize : bytes.size < extentBound)
    (h : ∀ i ∈ items, Reads i) (hpos : ∀ i ∈ items, Layout.write i ≠ []) : Reads (SizedList.ofItems items) := by
  have hle := hbytes.le_size
  have hlength := length_le_writeItems hpos
  have hform : (Layout.write (SizedList.ofItems items)).length = 4 + (writeItems items).length := by
    show (Write.uint _ ++ writeItems items).length = _
    rw [List.length_append, Write.length_uint]
  exact yields_sizedList (by omega) h hpos

end lists

end Layout

namespace DirectoryItem

open Read

theorem length_write (d : DirectoryItem) :
    (Layout.write d).length = 16 + (d.fields.length + d.methods.length + d.parameters.length) * 8 := by
  have hentry : ∀ entry ∈ d.fields ++ d.methods ++ d.parameters, (writeEntry entry).length = 8 := fun entry _ => by
    simp [writeEntry]
  have htables := length_flatMap_of_forall hentry
  show (Write.uint _ ++ Write.uint _ ++ Write.uint _ ++ Write.uint _ ++ List.flatMap writeEntry _).length = _
  rw [List.length_append, htables]
  simp only [List.length_append, Write.length_uint]

theorem yields_readEntry {entry : UInt32 × UInt32} (h : entry.1.toNat < extentBound)
    (h' : entry.2.toNat < extentBound) : Yields readEntry (writeEntry entry) entry :=
  (yields_smallUint h).bind ((yields_smallUint h').bind_pure _)

end DirectoryItem

namespace Header

open Read

theorem length_write (h : Header) : h.write.length = byteSize := by
  simp [write, Layout.write, byteSize]

/-- A header in the one byte order that is read. -/
structure Readable (h : Header) : Prop where
  magic : h.magic.toList.take 4 = magicStart
  endianTag : h.endianTag = littleEndianTag
  headerSize : byteSize ≤ h.headerSize.toNat

theorem yields_read {h : Header} (hr : h.Readable) : Yields read h.write h := fun bytes offset hbytes => by
  have hle := hbytes.le_size
  rw [length_write] at hle
  rw [read, on_bind, on_remaining]
  dsimp only
  rw [if_neg (by omega)]
  rw [write] at hbytes ⊢
  simp only [List.append_assoc] at hbytes ⊢
  refine Yields.bind (yields_bytes h.magic) ?_ bytes offset hbytes
  rw [if_neg (not_not_intro hr.magic)]
  refine (yields_uint _).bind ((yields_bytes _).bind ((yields_uint _).bind ((yields_uint _).bind
    ((yields_uint _).bind ?_))))
  have hsection := Layout.reads_section
  refine (hsection _).bind ((yields_uint _).bind ((hsection _).bind ((hsection _).bind ((hsection _).bind
    ((hsection _).bind ((hsection _).bind ((hsection _).bind ((hsection _).bind_nil ?_))))))))
  have hbig : h.endianTag ≠ bigEndianTag := by
    rw [hr.endianTag]
    decide
  rw [if_neg hbig, if_neg (not_not_intro hr.endianTag), if_neg (Nat.not_lt.mpr hr.headerSize)]
  exact .pure h

/-! ## The version -/

theorem toNat_digit (n : Nat) : (digit n).toNat = 0x30 + n % 10 := by
  simp only [digit, UInt8.toNat_ofNat']
  omega

theorem isDigit_digit (n : Nat) : isDigit (digit n) = true := by
  simp only [isDigit, toNat_digit, Bool.and_eq_true, decide_eq_true_eq]
  omega

/-- The magic of a version of three digits names that version. -/
theorem version_magicOf {h : Header} {n : Nat} (hmagic : h.magic = magicOf n) (hn : n < 1000) : h.version = .ok n := by
  have hdigits : ((magicOf n).toList.drop 4).take 3 = [digit (n / 100), digit (n / 10), digit n] := rfl
  have hend : (magicOf n)[7] = 0 := rfl
  have hall : [digit (n / 100), digit (n / 10), digit n].all isDigit = true := by simp [isDigit_digit]
  unfold version
  rw [hmagic]
  dsimp only
  rw [hdigits, hend, hall, beq_self_eq_true, Bool.and_self, if_pos rfl]
  simp only [List.foldl_cons, List.foldl_nil, toNat_digit]
  congr 1
  omega

end Header

end Dalvik
