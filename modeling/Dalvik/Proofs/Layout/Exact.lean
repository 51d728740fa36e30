import Dalvik.Proofs.Consuming
import Dalvik.Proofs.Layout

/-!
# Fixed layouts lose nothing but what they reserve

Two halfwords of a method handle and one of a map item are reserved: they are skipped, and
written as zeros. `Layout.Faithful` says that nothing else is lost, neither when an item is
written and read again nor when bytes are read and written again. A list is faithful if its
items are (`Layout.Faithful.list`), and so is every kind of item (`Block.faithful`).
-/

namespace Dalvik

/-! ## Items that fit, and bytes that are reserved -/

/-- The offset of the string's data is small. -/
def StringId.Small (i : StringId) : Prop :=
  i.dataOffset.toNat < extentBound

/-- The index of the descriptor is small. -/
def TypeId.Small (i : TypeId) : Prop :=
  i.descriptor.toNat < extentBound

/-- The indices and the offset of the prototype's parts are small. -/
structure ProtoId.Small (i : ProtoId) : Prop where
  shorty : i.shorty.toNat < extentBound
  returnType : i.returnType.toNat < extentBound
  parametersOffset : i.parametersOffset.toNat < extentBound

/-- The index of the name is small. -/
def FieldId.Small (i : FieldId) : Prop :=
  i.name.toNat < extentBound

/-- The index of the name is small. -/
def MethodId.Small (i : MethodId) : Prop :=
  i.name.toNat < extentBound

/-- The offset of the values is small. -/
def CallSiteId.Small (i : CallSiteId) : Prop :=
  i.valuesOffset.toNat < extentBound

namespace MapItem

/-- The size and the offset of the section are small. -/
structure Small (i : MapItem) : Prop where
  size : i.size.toNat < extentBound
  offset : i.offset.toNat < extentBound

/-- The positions of the bytes behind the type. -/
def reserved (position : Nat) : Bool :=
  position ∈ [2, 3]

end MapItem

/-- The positions of the bytes behind the kind and behind the member. -/
def MethodHandleId.reserved (position : Nat) : Bool :=
  position ∈ [2, 3, 6, 7]

/-- The offset is small. -/
def OffsetEntry.Small (i : OffsetEntry) : Prop :=
  i.offset.toNat < extentBound

/-- All numbers that are written of the directory are small. -/
structure DirectoryItem.Small (d : DirectoryItem) : Prop where
  classOffset : d.classOffset.toNat < extentBound
  fields : d.fields.length < extentBound
  methods : d.methods.length < extentBound
  parameters : d.parameters.length < extentBound
  entries : ∀ entry ∈ d.fields ++ d.methods ++ d.parameters, entry.1.toNat < extentBound ∧ entry.2.toNat < extentBound

namespace SizedList

variable {α : Type}

/-- The length is small, and each item fits. -/
structure Small (fits : α → Prop) (l : SizedList α) : Prop where
  length : l.items.length < extentBound
  items : ∀ item ∈ l.items, fits item

/-- The list as writing leaves it, with its items counted. -/
def settled (l : SizedList α) : SizedList α :=
  ⟨l.list.refresh⟩

/-- What is reserved in a list whose items take `size` bytes: what is reserved in each. -/
def reserved (size : Nat) (inItem : Nat → Bool) (position : Nat) : Bool :=
  4 ≤ position && inItem ((position - 4) % size)

theorem reserved_none (size : Nat) : (reserved size fun _ => false) = fun _ => false :=
  funext fun _ => Bool.and_false _

end SizedList

namespace Layout

open Read

/-! ## Bytes that mean nothing -/

/-- The bytes with zeros at the positions that are reserved. -/
def blank (reserved : Nat → Bool) (form : List UInt8) : List UInt8 :=
  form.mapIdx fun position byte => if reserved position then 0 else byte

section blank

variable {reserved : Nat → Bool} {form : List UInt8}

@[simp] theorem length_blank (reserved : Nat → Bool) (form : List UInt8) : (blank reserved form).length = form.length :=
  List.length_mapIdx

theorem blank_append (reserved : Nat → Bool) (form form' : List UInt8) :
    blank reserved (form ++ form') = blank reserved form ++ blank (fun position => reserved (position + form.length)) form' :=
  List.mapIdx_append

/-- Only the positions of the bytes matter. -/
theorem blank_congr {reserved' : Nat → Bool} (h : ∀ position < form.length, reserved position = reserved' position) :
    blank reserved form = blank reserved' form := by
  refine List.ext_getElem (by rw [length_blank, length_blank]) fun position hposition _ => ?_
  rw [length_blank] at hposition
  simp only [blank, List.getElem_mapIdx, h position hposition]

theorem blank_eq_self (h : ∀ position < form.length, reserved position = false) : blank reserved form = form := by
  rw [blank_congr h]
  exact List.ext_getElem (length_blank ..) fun position _ _ => List.getElem_mapIdx

theorem blank_eq_replicate (h : ∀ position < form.length, reserved position = true) :
    blank reserved form = List.replicate form.length 0 := by
  rw [blank_congr h]
  refine List.ext_getElem (by rw [length_blank, List.length_replicate]) fun position _ _ => ?_
  rw [List.getElem_replicate]
  exact List.getElem_mapIdx

/-- What is reserved in each of several forms of one size. -/
theorem blank_flatten {size : Nat} {forms : List (List UInt8)} (hsize : ∀ form ∈ forms, form.length = size)
    (hperiodic : ∀ position, reserved (position + size) = reserved position) :
    blank reserved forms.flatten = (forms.map (blank reserved)).flatten := by
  induction forms with
  | nil => rfl
  | cons form forms ih =>
    rw [List.forall_mem_cons] at hsize
    rw [List.flatten_cons, blank_append, hsize.1, funext hperiodic, ih hsize.2, List.map_cons, List.flatten_cons]

/-- Two bytes between others that are reserved. -/
theorem blank_gap {gap : List UInt8} (hgap : gap.length = 2) (hform : ∀ position < form.length, reserved position = false)
    (hreserved : ∀ position < 2, reserved (position + form.length) = true) (rest : List UInt8) :
    blank reserved (form ++ (gap ++ rest)) =
      form ++ (Write.ushort 0 ++ blank (fun position => reserved (position + (form.length + 2))) rest) := by
  have hzeros : blank (fun position => reserved (position + form.length)) gap = Write.ushort 0 := by
    rw [blank_eq_replicate (hgap.symm ▸ hreserved), hgap]
    rfl
  rw [blank_append, blank_eq_self hform, blank_append, hzeros, hgap]
  simp only [Nat.add_assoc, Nat.add_comm 2]

end blank

/-! ## Layouts that lose nothing else -/

/-- What is written of an item that fits is read as the item, settled; and where an item
is read, it fits, is settled, and is written as what stood there, with zeros where bytes
are reserved. -/
structure Faithful {ι : Type} [Layout ι] (fits : ι → Prop) (settled : ι → ι) (reserved : Nat → Bool) : Prop where
  yields : ∀ item, fits item → Yields Layout.read (Layout.write item) (settled item)
  consumes : Consumes Layout.read fun item form =>
    fits item ∧ settled item = item ∧ Layout.write item = blank reserved form

variable {ι : Type} [Layout ι] {fits : ι → Prop}

/-- Where nothing is reserved, what is read is written as it stood. -/
theorem Faithful.plain (hyields : ∀ item, fits item → Reads item)
    (hconsumes : Consumes Layout.read fun item form => fits item ∧ form = Layout.write item) :
    Faithful fits id (fun _ => false) where
  yields := hyields
  consumes := hconsumes.mono fun item form ⟨hfits, hform⟩ =>
    ⟨hfits, rfl, by rw [blank_eq_self fun _ _ => rfl, hform]⟩

/-! ### Lists -/

theorem blank_list {size : Nat} (reserved : Nat → Bool) {head : List UInt8} (hhead : head.length = 4)
    {forms : List (List UInt8)} (hsize : ∀ form ∈ forms, form.length = size) :
    blank (SizedList.reserved size reserved) (head ++ forms.flatten) = head ++ (forms.map (blank reserved)).flatten := by
  have hitems : (fun position => SizedList.reserved size reserved (position + 4)) =
      fun position => reserved (position % size) := by
    funext position
    rw [SizedList.reserved, decide_eq_true (Nat.le_add_left 4 position), Bool.true_and, Nat.add_sub_cancel]
  have hfirst : ∀ position < head.length, SizedList.reserved size reserved position = false := by
    intro position hposition
    rw [SizedList.reserved, decide_eq_false (by omega), Bool.false_and]
  rw [blank_append, blank_eq_self hfirst, hhead, hitems,
    blank_flatten hsize fun position => by rw [Nat.add_mod_right]]
  congr 2
  refine List.map_congr_left fun form hform => blank_congr fun position hposition => ?_
  rw [Nat.mod_eq_of_lt (hsize form hform ▸ hposition)]

theorem consumes_readItems {post : ι → List UInt8 → Prop} (h : Consumes (Layout.read : Read ι) post) (count : Nat) :
    Consumes (readItems ι count) fun items form =>
      items.length = count ∧ ∃ forms, form = forms.flatten ∧ List.Forall₂ post items forms := by
  refine .remaining fun remaining => ?_
  split
  · exact .fail _
  · exact h.listFrom _ _ _

/-- Items of one size that are written as what stood there. -/
theorem written_of_forall₂ {reserved : Nat → Bool} {size : Nat} (hsize : ∀ item : ι, (Layout.write item).length = size)
    {items : List ι} {forms : List (List UInt8)}
    (h : List.Forall₂ (fun item form => fits item ∧ id item = item ∧ Layout.write item = blank reserved form) items forms) :
    (∀ item ∈ items, fits item) ∧ (∀ form ∈ forms, form.length = size) ∧
      writeItems items = (forms.map (blank reserved)).flatten := by
  induction h with
  | nil => exact ⟨List.forall_mem_nil _, List.forall_mem_nil _, rfl⟩
  | @cons item form items forms hitem _ ih =>
    obtain ⟨hfits, -, hwrite⟩ := hitem
    have hform : form.length = size := by
      rw [← length_blank reserved, ← hwrite, hsize]
    refine ⟨List.forall_mem_cons.mpr ⟨hfits, ih.1⟩, List.forall_mem_cons.mpr ⟨hform, ih.2.1⟩, ?_⟩
    show Layout.write item ++ writeItems items = _
    rw [hwrite, ih.2.2, List.map_cons, List.flatten_cons]

/-- A list is faithful if its items are. -/
theorem Faithful.list {reserved : Nat → Bool} {size : Nat} (h : Faithful fits id reserved)
    (hsize : ∀ item : ι, (Layout.write item).length = size) (hpos : 0 < size) :
    Faithful (SizedList.Small fits) SizedList.settled (SizedList.reserved size reserved) where
  yields l hl :=
    yields_sizedList hl.length (fun item hitem => h.yields item (hl.items item hitem)) fun item _ =>
      List.length_pos_iff.mp (by rw [hsize]; exact hpos)
  consumes := by
    refine .bind_smallUint fun count hcount => (consumes_readItems h.consumes _).map _ ?_
    rintro items _ ⟨hlength, forms, rfl, hforms⟩
    obtain ⟨hfits, hsizes, hwritten⟩ := written_of_forall₂ hsize hforms
    have hcounted : (SizedList.ofItems items).list.count = count := by
      show UInt32.ofNat items.length = count
      rw [hlength, UInt32.ofNat_toNat]
    refine ⟨⟨?_, hfits⟩, rfl, ?_⟩
    · show items.length < extentBound
      rwa [hlength]
    · rw [blank_list reserved (Write.length_uint _) hsizes, ← hwritten]
      show Write.uint (SizedList.ofItems items).list.count ++ writeItems items = _
      rw [hcounted]

/-! ### Items -/

theorem faithful_stringId : Faithful StringId.Small id fun _ => false :=
  .plain (fun _ => reads_stringId) (consumes_smallUint.map _ fun _ _ h => h)

theorem faithful_typeId : Faithful TypeId.Small id fun _ => false :=
  .plain (fun _ => reads_typeId) (consumes_smallUint.map _ fun _ _ h => h)

theorem faithful_callSiteId : Faithful CallSiteId.Small id fun _ => false :=
  .plain (fun _ => reads_callSiteId) (consumes_smallUint.map _ fun _ _ h => h)

theorem faithful_offsetEntry : Faithful OffsetEntry.Small id fun _ => false :=
  .plain (fun _ => reads_offsetEntry) (consumes_smallUint.map _ fun _ _ h => h)

theorem faithful_typeEntry : Faithful (fun _ : TypeEntry => True) id fun _ => false :=
  .plain (fun i _ => reads_typeEntry i) (consumes_ushort.bind_pure _ fun _ => ⟨trivial, rfl⟩)

theorem faithful_protoId : Faithful ProtoId.Small id fun _ => false := by
  refine .plain (fun i ⟨hshorty, hreturn, hparameters⟩ => reads_protoId hshorty hreturn hparameters) ?_
  refine .bind_smallUint fun shorty hshorty => .bind_smallUint fun returnType hreturn =>
    .bind_smallUint fun parameters hparameters => .pure ⟨⟨hshorty, hreturn, hparameters⟩, ?_⟩
  simp [Layout.write]

theorem faithful_fieldId : Faithful FieldId.Small id fun _ => false := by
  refine .plain (fun _ => reads_fieldId) ?_
  refine consumes_ushort.bind_form fun definingClass => consumes_ushort.bind_form fun type =>
    .bind_smallUint fun name hname => .pure ⟨hname, ?_⟩
  simp [Layout.write]

theorem faithful_methodId : Faithful MethodId.Small id fun _ => false := by
  refine .plain (fun _ => reads_methodId) ?_
  refine consumes_ushort.bind_form fun definingClass => consumes_ushort.bind_form fun proto =>
    .bind_smallUint fun name hname => .pure ⟨hname, ?_⟩
  simp [Layout.write]

theorem faithful_classDef : Faithful (fun _ : ClassDefItem => True) id fun _ => false := by
  refine .plain (fun i _ => reads_classDefItem i) ?_
  refine consumes_uint.bind_form fun type => consumes_uint.bind_form fun accessFlags =>
    consumes_uint.bind_form fun superclass => consumes_uint.bind_form fun interfaces =>
    consumes_uint.bind_form fun sourceFile => consumes_uint.bind_form fun annotations =>
    consumes_uint.bind_form fun classData => consumes_uint.bind_form fun staticValues => .pure ⟨trivial, ?_⟩
  simp [Layout.write]

theorem faithful_handleId : Faithful (fun _ : MethodHandleId => True) id MethodHandleId.reserved where
  yields i _ := reads_handleId i
  consumes := by
    refine consumes_ushort.bind_form fun kind => (consumes_skip 2).bind fun _ gap hgap =>
      consumes_ushort.bind_form fun member => (consumes_skip 2).bind fun _ gap' hgap' => .pure ⟨trivial, rfl, ?_⟩
    unfold MethodHandleId.reserved
    rw [blank_gap hgap (by simp; omega) (by simp; omega), blank_gap hgap' (by simp; omega) (by simp; omega)]
    simp [Layout.write, blank]

theorem faithful_mapItem : Faithful MapItem.Small id MapItem.reserved where
  yields i hi := reads_mapItem hi.size hi.offset
  consumes := by
    refine consumes_ushort.bind_form fun type => (consumes_skip 2).bind fun _ gap hgap =>
      .bind_smallUint fun size hsize => .bind_smallUint fun offset hoffset => .pure ⟨⟨hsize, hoffset⟩, rfl, ?_⟩
    unfold MapItem.reserved
    rw [blank_gap hgap (by simp; omega) (by simp; omega), blank_eq_self (by simp)]
    simp [Layout.write]

end Layout

namespace DirectoryItem

open Read Layout

theorem yields_entries {entries : List (UInt32 × UInt32)}
    (h : ∀ entry ∈ entries, entry.1.toNat < extentBound ∧ entry.2.toNat < extentBound) :
    Yields (readEntry.times entries.length) (entries.flatMap writeEntry) entries := by
  rw [List.flatMap_def]
  refine .times (List.forall₂_map_left_iff.mpr (List.forall₂_same.mpr fun entry hentry => ?_))
  exact yields_readEntry (h entry hentry).1 (h entry hentry).2

theorem consumes_entries (count : Nat) : Consumes (readEntry.times count) fun entries form =>
    entries.length = count ∧ (∀ entry ∈ entries, entry.1.toNat < extentBound ∧ entry.2.toNat < extentBound) ∧
      form = entries.flatMap writeEntry := by
  have hentry : Consumes readEntry fun entry form =>
      (entry.1.toNat < extentBound ∧ entry.2.toNat < extentBound) ∧ form = writeEntry entry := by
    refine .bind_smallUint fun index hindex => consumes_smallUint.map _ fun offset form ⟨hoffset, hform⟩ => ?_
    exact ⟨⟨hindex, hoffset⟩, congrArg _ hform⟩
  exact hentry.times count

theorem count_eq {entries : List (UInt32 × UInt32)} {n : UInt32} (h : entries.length = n.toNat) : count entries = n := by
  rw [count, h, UInt32.ofNat_toNat]

theorem toNat_count {entries : List (UInt32 × UInt32)} (h : entries.length < extentBound) :
    (count entries).toNat = entries.length :=
  UInt32.toNat_ofNat_of_lt' (Nat.lt_trans h (by decide))

theorem yields_count {entries : List (UInt32 × UInt32)} (h : entries.length < extentBound) :
    Yields smallUint (Write.uint (count entries)) (count entries) :=
  yields_smallUint (by rwa [toNat_count h])

/-- A directory is read as it was written. -/
theorem reads {d : DirectoryItem} (h : d.Small) : Reads d := by
  have hentries := h.entries
  simp only [List.forall_mem_append] at hentries
  show Yields _ (Write.uint _ ++ Write.uint _ ++ Write.uint _ ++ Write.uint _ ++
    (d.fields ++ d.methods ++ d.parameters).flatMap writeEntry) d
  simp only [List.append_assoc, List.flatMap_append]
  refine (yields_smallUint h.classOffset).bind ((yields_count h.fields).bind ((yields_count h.methods).bind
    ((yields_count h.parameters).bind ?_)))
  rw [toNat_count h.fields, toNat_count h.methods, toNat_count h.parameters]
  exact (yields_entries hentries.1.1).bind ((yields_entries hentries.1.2).bind
    ((yields_entries hentries.2).bind_pure _))

theorem faithful : Faithful DirectoryItem.Small id fun _ => false := by
  refine .plain (fun _ => reads) ?_
  refine .bind_smallUint fun classOffset hclass => .bind_smallUint fun fieldCount hfields =>
    .bind_smallUint fun methodCount hmethods => .bind_smallUint fun parameterCount hparameters =>
    (consumes_entries _).bind ?_
  rintro fields _ ⟨hfieldCount, hfieldEntries, rfl⟩
  refine (consumes_entries _).bind ?_
  rintro methods _ ⟨hmethodCount, hmethodEntries, rfl⟩
  refine (consumes_entries _).map _ ?_
  rintro parameters _ ⟨hparameterCount, hparameterEntries, rfl⟩
  refine ⟨⟨hclass, hfieldCount ▸ hfields, hmethodCount ▸ hmethods, hparameterCount ▸ hparameters, ?_⟩, ?_⟩
  · simp only [List.forall_mem_append]
    exact ⟨⟨hfieldEntries, hmethodEntries⟩, hparameterEntries⟩
  · show _ = Write.uint _ ++ Write.uint (count fields) ++ Write.uint (count methods) ++ Write.uint (count parameters) ++
      (fields ++ methods ++ parameters).flatMap writeEntry
    rw [count_eq hfieldCount, count_eq hmethodCount, count_eq hparameterCount]
    simp only [List.append_assoc, List.flatMap_append]

end DirectoryItem

namespace Header

open Read Layout

theorem consumes_section : Consumes Layout.read fun (s : Section) form => form = Layout.write s :=
  consumes_uint.bind_form fun _ => consumes_uint.bind_pure _ fun _ => rfl

theorem faithful : Faithful Header.Readable id fun _ => false := by
  refine .plain (fun h => Header.yields_read) ?_
  show Consumes Header.read _
  refine .remaining fun remaining => ?_
  split
  · exact .fail_bind _
  refine (consumes_bytes 8).bind_form fun magic => ?_
  split
  · exact .fail_bind _
  rename_i hmagic
  refine consumes_uint.bind_form fun checksum => (consumes_bytes 20).bind_form fun signature =>
    consumes_uint.bind_form fun fileSize => consumes_uint.bind_form fun headerSize =>
    consumes_uint.bind_form fun endianTag => consumes_section.bind_form fun link =>
    consumes_uint.bind_form fun mapOffset => consumes_section.bind_form fun stringIds =>
    consumes_section.bind_form fun typeIds => consumes_section.bind_form fun protoIds =>
    consumes_section.bind_form fun fieldIds => consumes_section.bind_form fun methodIds =>
    consumes_section.bind_form fun classDefs => consumes_section.bind_form fun data => ?_
  dsimp only
  split
  · exact .fail_bind _
  split
  · exact .fail_bind _
  rename_i hendian
  split
  · exact .fail_bind _
  rename_i hsize
  refine .pure ⟨⟨not_not.mp hmagic, not_not.mp hendian, Nat.not_lt.mp hsize⟩, ?_⟩
  show _ = Header.write _
  simp only [Header.write, List.append_assoc, List.append_nil]

end Header

/-! ### All kinds -/

/-- The kinds of items that have a fixed layout, or a length in front. -/
inductive Block where
  | header
  | stringId
  | typeId
  | protoId
  | fieldId
  | methodId
  | classDef
  | callSiteId
  | handleId
  | mapItem
  | typeEntry
  | offsetEntry
  | directory
  | mapList
  | typeList
  | offsetList
  deriving DecidableEq, Repr

namespace Block

open Layout

/-- The items of a kind. -/
def Item : Block → Type
  | header => Header
  | stringId => StringId
  | typeId => TypeId
  | protoId => ProtoId
  | fieldId => FieldId
  | methodId => MethodId
  | classDef => ClassDefItem
  | callSiteId => CallSiteId
  | handleId => MethodHandleId
  | mapItem => MapItem
  | typeEntry => TypeEntry
  | offsetEntry => OffsetEntry
  | directory => DirectoryItem
  | mapList => MapList
  | typeList => TypeList
  | offsetList => OffsetList

instance : (block : Block) → Layout block.Item
  | header => inferInstanceAs (Layout Header)
  | stringId => inferInstanceAs (Layout StringId)
  | typeId => inferInstanceAs (Layout TypeId)
  | protoId => inferInstanceAs (Layout ProtoId)
  | fieldId => inferInstanceAs (Layout FieldId)
  | methodId => inferInstanceAs (Layout MethodId)
  | classDef => inferInstanceAs (Layout ClassDefItem)
  | callSiteId => inferInstanceAs (Layout CallSiteId)
  | handleId => inferInstanceAs (Layout MethodHandleId)
  | mapItem => inferInstanceAs (Layout MapItem)
  | typeEntry => inferInstanceAs (Layout TypeEntry)
  | offsetEntry => inferInstanceAs (Layout OffsetEntry)
  | directory => inferInstanceAs (Layout DirectoryItem)
  | mapList => inferInstanceAs (Layout MapList)
  | typeList => inferInstanceAs (Layout TypeList)
  | offsetList => inferInstanceAs (Layout OffsetList)

/-- Whether the numbers of an item that are read as sizes or offsets are small enough, and
whether a header is one of the format. -/
def Fits : (block : Block) → block.Item → Prop
  | header => Header.Readable
  | stringId => StringId.Small
  | typeId => TypeId.Small
  | protoId => ProtoId.Small
  | fieldId => FieldId.Small
  | methodId => MethodId.Small
  | callSiteId => CallSiteId.Small
  | mapItem => MapItem.Small
  | offsetEntry => OffsetEntry.Small
  | directory => DirectoryItem.Small
  | mapList => SizedList.Small MapItem.Small
  | typeList => SizedList.Small fun _ : TypeEntry => True
  | offsetList => SizedList.Small OffsetEntry.Small
  | classDef | handleId | typeEntry => fun _ => True

/-- The item as writing leaves it: only lists bring a count along that is settled then. -/
def settled : (block : Block) → block.Item → block.Item
  | mapList => fun l : MapList => l.settled
  | typeList => fun l : TypeList => l.settled
  | offsetList => fun l : OffsetList => l.settled
  | _ => id

/-- The positions of the bytes that mean nothing. -/
def reserved : Block → Nat → Bool
  | handleId => MethodHandleId.reserved
  | mapItem => MapItem.reserved
  | mapList => SizedList.reserved MapItem.byteSize MapItem.reserved
  | _ => fun _ => false

theorem faithful : (block : Block) → Faithful block.Fits block.settled block.reserved
  | header => Header.faithful
  | stringId => faithful_stringId
  | typeId => faithful_typeId
  | protoId => faithful_protoId
  | fieldId => faithful_fieldId
  | methodId => faithful_methodId
  | classDef => faithful_classDef
  | callSiteId => faithful_callSiteId
  | handleId => faithful_handleId
  | mapItem => faithful_mapItem
  | typeEntry => faithful_typeEntry
  | offsetEntry => faithful_offsetEntry
  | directory => DirectoryItem.faithful
  | mapList => faithful_mapItem.list length_mapItem (by decide)
  | typeList => by
    have hlist := faithful_typeEntry.list (fun _ => Write.length_ushort _) (by decide)
    rwa [SizedList.reserved_none] at hlist
  | offsetList => by
    have hlist := faithful_offsetEntry.list length_offsetEntry (by decide)
    rwa [SizedList.reserved_none] at hlist

/-- Wherever the written form of an item stands that fits, the item is read from exactly
these bytes, as writing leaves it. And where an item is read, it fits and is written as
the bytes that it was read from, with zeros where bytes are reserved. -/
theorem read_write (block : Block) :
    (∀ (item : block.Item), block.Fits item → ∀ (bytes : Bytes) (offset : Nat), bytes.Holds offset (Layout.write item) →
      Layout.read.on bytes offset = (.ok (block.settled item), offset + (Layout.write item).length)) ∧
    ∀ (bytes : Bytes) (offset : Nat) (item : block.Item) (next : Nat), offset ≤ bytes.size →
      Layout.read.on bytes offset = (.ok item, next) →
        block.Fits item ∧ block.settled item = item ∧ offset ≤ next ∧ next ≤ bytes.size ∧
          Layout.write item = blank block.reserved (bytes.extract offset next).toList := by
  refine ⟨fun item hfits bytes offset hbytes => block.faithful.yields item hfits bytes offset hbytes, ?_⟩
  intro bytes offset item next hle hread
  obtain ⟨form, hform, rfl, hfits, hsettled, hwrite⟩ := block.faithful.consumes bytes offset item next hle hread
  refine ⟨hfits, hsettled, Nat.le_add_right .., hform.le_size, ?_⟩
  rw [hform.extract_eq, hwrite]

/-- The form of a map of one section, with something in the reserved halfword. -/
def mapWithGap : Bytes :=
  #[1, 0, 0, 0, 0x00, 0x10, 0xaa, 0xbb, 1, 0, 0, 0, 0x70, 0, 0, 0, 0xff]

/-- The map that is read there. -/
def mapWithoutGap : mapList.Item :=
  SizedList.ofItems [⟨0x1000, 1, 0x70⟩]

theorem read_write_gap :
    Layout.read.on mapWithGap 0 = (.ok mapWithoutGap, 16) ∧
      Layout.write mapWithoutGap = [1, 0, 0, 0, 0x00, 0x10, 0, 0, 1, 0, 0, 0, 0x70, 0, 0, 0] ∧
      Layout.read.on (Layout.write mapWithoutGap).toArray 0 = (.ok mapWithoutGap, 16) := by
  have hread : Layout.read.on mapWithGap 0 = (.ok mapWithoutGap, 16) := rfl
  obtain ⟨hfits, hsettled, -, -, hwrite⟩ := mapList.read_write.2 mapWithGap 0 mapWithoutGap 16 (by decide) hread
  have hheld : Bytes.Holds (Layout.write mapWithoutGap).toArray 0 (Layout.write mapWithoutGap) :=
    ⟨[], [], by rw [List.nil_append, List.append_nil], rfl⟩
  refine ⟨hread, hwrite, ?_⟩
  rw [mapList.read_write.1 mapWithoutGap hfits _ 0 hheld, hsettled, hwrite]
  rfl

end Block

end Dalvik
