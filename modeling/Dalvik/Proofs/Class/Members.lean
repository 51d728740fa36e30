import Dalvik.Proofs.Class.Directory
import Dalvik.Proofs.Class.Entries
import Dalvik.Proofs.Class.Kept
import Dalvik.Proofs.Class.Restrictions

/-!
# The members of a class are read as they were written

The class data hold four lists of members, of two or three numbers for each member, so
that a list is found by stepping over the numbers of the lists before it. The same
numbers of members lead to the flags of a list. `Located.exists_entries`: each list of a
class that has been found is read as it was written, with the initial values and the
restrictions that the file keeps.
-/

namespace Dalvik

open Members

/-- What the class data and the lists that are read in step with them say of a
member. -/
structure Row where
  own : StoredClass.Own
  value : Option Value
  hidden : Option HiddenApi

namespace MemberKind

/-- The lists in front of a list. -/
def before : MemberKind → List MemberKind
  | staticField => []
  | instanceField => [staticField]
  | directMethod => [staticField, instanceField]
  | virtualMethod => [staticField, instanceField, directMethod]

/-- How many numbers an entry of a list has. -/
def width (kind : MemberKind) : Nat :=
  if kind.isMethod then 3 else 2

/-- What stands in four lists one after the other. -/
def concat {α : Type} (lists : MemberKind → List α) : List α :=
  lists staticField ++ lists instanceField ++ lists directMethod ++ lists virtualMethod

/-- What is given for each of the lists. -/
def each {α : Type} (staticFields instanceFields directMethods virtualMethods : α) : MemberKind → α
  | staticField => staticFields
  | instanceField => instanceFields
  | directMethod => directMethods
  | virtualMethod => virtualMethods

theorem exists_concat_eq {α : Type} (lists : MemberKind → List α) (kind : MemberKind) :
    ∃ rest, concat lists = kind.before.flatMap lists ++ (lists kind ++ rest) := by
  cases kind with
  | staticField => exact ⟨lists instanceField ++ lists directMethod ++ lists virtualMethod, by simp [concat, before]⟩
  | instanceField => exact ⟨lists directMethod ++ lists virtualMethod, by simp [concat, before]⟩
  | directMethod => exact ⟨lists virtualMethod, by simp [concat, before]⟩
  | virtualMethod => exact ⟨[], by simp [concat, before]⟩

theorem mem_concat {α : Type} {lists : MemberKind → List α} {a : α} :
    a ∈ concat lists ↔ ∃ kind, a ∈ lists kind := by
  simp only [concat, List.mem_append]
  constructor
  · rintro (((h | h) | h) | h)
    exacts [⟨_, h⟩, ⟨_, h⟩, ⟨_, h⟩, ⟨_, h⟩]
  · rintro ⟨kind, h⟩
    cases kind with
    | staticField => exact .inl (.inl (.inl h))
    | instanceField => exact .inl (.inl (.inr h))
    | directMethod => exact .inl (.inr h)
    | virtualMethod => exact .inr h

/-- Each list stands behind those in front of it. -/
theorem holds_concat {bytes : Bytes} {offset : Nat} {lists : MemberKind → List UInt8}
    (h : bytes.Holds offset (concat lists)) (kind : MemberKind) :
    bytes.Holds offset (kind.before.flatMap lists) ∧
      bytes.Holds (offset + (kind.before.flatMap lists).length) (lists kind) := by
  obtain ⟨rest, heq⟩ := exists_concat_eq lists kind
  rw [heq] at h
  exact ⟨h.left, h.right.left⟩

end MemberKind

open MemberKind (concat)

namespace ClassDef

/-- The restrictions of the members of a list. -/
def restrictionsOf (c : ClassDef) : MemberKind → List (Option HiddenApi)
  | .staticField => c.staticFields.map (·.hidden)
  | .instanceField => c.instanceFields.map (·.hidden)
  | .directMethod => c.directMethods.map (·.hidden)
  | .virtualMethod => c.virtualMethods.map (·.hidden)

theorem restrictions_eq (c : ClassDef) : c.restrictions = concat c.restrictionsOf := by
  simp [restrictions, concat, restrictionsOf, fields, methods]

/-- The flags of a class are those of its lists of members. -/
theorem writeFlags_eq {c : ClassDef} (h : c.isRestricted = true) : writeFlags c =
    concat fun kind => StoredClass.writeRestrictions ((c.restrictionsOf kind).map fun r => (r.getD .unrestricted).kept) := by
  have hvalue : ∀ r : Option HiddenApi, (r.map HiddenApi.value).getD 0 = (r.getD .unrestricted).kept.value := by
    intro r
    rw [HiddenApi.value_kept]
    cases r <;> rfl
  rw [writeFlags, if_pos h, restrictions_eq]
  simp only [concat, List.flatMap_append, StoredClass.writeRestrictions, List.flatMap_map, hvalue]

end ClassDef

namespace Blueprint

variable (b : Blueprint) (t : DataTables)

/-- What a file says of a field. -/
def fieldRow (f : FieldDef) : Row :=
  ⟨⟨b.pools.fields.indexOrNone f.sig, f.flags.bits, 0⟩, f.value, f.hidden⟩

/-- What a file says of a method. -/
def methodRow (m : MethodDef) : Row :=
  ⟨⟨b.pools.methods.indexOrNone m.sig, m.flags.bits, offsetIn t.code m.sig⟩, none, m.hidden⟩

/-- What a file says of the members of a class. -/
def rows (c : ClassDef) : MemberKind → List Row
  | .staticField => c.staticFields.map b.fieldRow
  | .instanceField => c.instanceFields.map b.fieldRow
  | .directMethod => c.directMethods.map (b.methodRow t)
  | .virtualMethod => c.virtualMethods.map (b.methodRow t)

theorem length_rows (c : ClassDef) (kind : MemberKind) :
    (b.rows t c kind).length = (c.restrictionsOf kind).length := by
  cases kind <;> simp [rows, ClassDef.restrictionsOf]

/-- The restrictions that a file gives the members of a list. -/
theorem map_hidden_rows (c : ClassDef) (kind : MemberKind) :
    (b.rows t c.kept kind).map Row.hidden = (c.restrictionsOf kind).map c.keptHidden := by
  cases kind with
  | staticField =>
    refine List.ext_getElem? fun i => ?_
    simp only [rows, ClassDef.restrictionsOf, ClassDef.kept, List.getElem?_map, List.getElem?_mapIdx, Option.map_map]
    rfl
  | instanceField | directMethod | virtualMethod =>
    simp only [rows, ClassDef.restrictionsOf, ClassDef.kept, List.map_map]
    rfl

section hidden

variable {b t} {c : ClassDef} {kind : MemberKind} {row : Row} (hrow : row ∈ b.rows t c.kept kind)

include hrow

/-- The restrictions that a file gives a member are those that it makes of its own. -/
theorem exists_of_mem_rows : ∃ r ∈ c.restrictions, row.hidden = c.keptHidden r := by
  have hmem : row.hidden ∈ (c.restrictionsOf kind).map c.keptHidden :=
    b.map_hidden_rows t c kind ▸ List.mem_map_of_mem hrow
  obtain ⟨r, hr, heq⟩ := List.mem_map.mp hmem
  exact ⟨r, c.restrictions_eq ▸ MemberKind.mem_concat.mpr ⟨kind, hr⟩, heq.symm⟩

theorem map_kept_hidden : row.hidden.map HiddenApi.kept = row.hidden := by
  obtain ⟨r, -, heq⟩ := exists_of_mem_rows hrow
  rw [heq, c.map_kept_keptHidden]

/-- Restrictions whose numbers are small are read as the file gives them. -/
theorem reread_hidden (hsmall : ∀ r ∈ c.restrictions, ∀ h ∈ r, h.value < 32) :
    HiddenApi.reread row.hidden = .ok row.hidden := by
  obtain ⟨r, hr, heq⟩ := exists_of_mem_rows hrow
  rw [heq, ClassDef.reread_keptHidden (hsmall r hr)]

end hidden

/-- What the class data say of members is kept. -/
theorem map_own_rows_kept (c : ClassDef) (kind : MemberKind) :
    (b.rows t c.kept kind).map Row.own = (b.rows t c kind).map Row.own := by
  cases kind with
  | staticField =>
    refine List.ext_getElem? fun i => ?_
    simp only [rows, ClassDef.kept, List.getElem?_map, List.getElem?_mapIdx, Option.map_map]
    rfl
  | instanceField =>
    simp only [rows, ClassDef.kept, List.map_map]
    rfl
  | directMethod | virtualMethod =>
    simp only [rows, ClassDef.kept, List.map_map]
    refine List.map_congr_left fun m _ => ?_
    simp only [Function.comp_apply, methodRow, m.sig_kept]
    rfl

theorem length_rows_kept (c : ClassDef) (kind : MemberKind) : (b.rows t c.kept kind).length = (b.rows t c kind).length := by
  rw [← List.length_map Row.own, map_own_rows_kept, List.length_map]

variable {b t}

/-- Static fields have the initial values that a file keeps, and none behind them. -/
theorem map_value_staticRows (c : ClassDef) : (b.rows t c.kept .staticField).map Row.value =
    c.staticValues.map (fun v => some v.arranged) ++
      List.replicate (c.staticFields.length - c.staticValues.length) none := by
  have hle := c.staticValues_prefix.length_le
  rw [List.length_map] at hle
  refine List.ext_getElem (by simp [rows, ClassDef.kept]; omega) fun i hi _ => ?_
  rw [List.getElem_append]
  simp only [rows, ClassDef.kept, List.getElem_map, List.getElem_mapIdx, fieldRow, FieldDef.kept, ClassDef.keptValue,
    List.length_map, List.getElem_replicate]
  split
  · rw [List.getElem?_eq_getElem ‹_›]
    rfl
  · rw [List.getElem?_eq_none (Nat.not_lt.mp ‹_›)]
    rfl

/-- Only static fields have initial values. -/
theorem map_value_rows {c : ClassDef} {kind : MemberKind} (hkind : kind ≠ .staticField) :
    (b.rows t c.kept kind).map Row.value = List.replicate (b.rows t c.kept kind).length none := by
  refine List.eq_replicate_iff.mpr ⟨List.length_map _, List.forall_mem_map.mpr ?_⟩
  cases kind with
  | staticField => exact absurd rfl hkind
  | instanceField => exact List.forall_mem_map.mpr (List.forall_mem_map.mpr fun f _ => rfl)
  | directMethod | virtualMethod => exact List.forall_mem_map.mpr (List.forall_mem_map.mpr fun m _ => rfl)

end Blueprint

/-! ## Lists of numbers -/

namespace StoredClass

open Read

/-- Numbers that stand one after the other are stepped over. -/
theorem skipNumbers_eq {image : Image} {offset : Nat} {numbers : List UInt32}
    (h : image.bytes.Holds offset (numbers.flatMap Write.uleb128)) {count : Nat} (hcount : numbers.length = count) :
    skipNumbers image offset count = .ok (UInt32.ofNat (offset + (numbers.flatMap Write.uleb128).length)) := by
  have hskip : ∀ form ∈ numbers.map Write.uleb128, Yields (discard uleb128) form () := by
    intro form hform
    obtain ⟨number, -, rfl⟩ := List.mem_map.mp hform
    exact (yields_uleb128 number).discard
  have hrepeated := Yields.repeated hskip
  rw [List.length_map, hcount, ← List.flatMap_def] at hrepeated
  exact (hrepeated.bind_mark fun _ offset => offset).at? h

/-- The numbers of an entry. -/
def Own.numbers (kind : MemberKind) (delta : UInt32) (own : Own) : List UInt32 :=
  if kind.isMethod then [delta, own.flags, own.code] else [delta, own.flags]

theorem writeOwn_eq (kind : MemberKind) (delta : UInt32) (own : Own) :
    writeOwn kind delta own = (own.numbers kind delta).flatMap Write.uleb128 := by
  unfold writeOwn Own.numbers
  cases kind.isMethod <;> simp

theorem Own.length_numbers (kind : MemberKind) (delta : UInt32) (own : Own) :
    (own.numbers kind delta).length = kind.width := by
  unfold Own.numbers MemberKind.width
  split <;> rfl

/-- The form of a list of members, each of whose entries holds the difference of its
index to the one before. -/
def IsList (kind : MemberKind) (owns : List Own) (form : List UInt8) : Prop :=
  ∃ cause ds, deltas cause none (owns.map Own.index) = .ok ds ∧ form = (ds.zipWith (writeOwn kind) owns).flatten

/-- The entries of a list consist of as many numbers as their kind has. -/
theorem exists_numbers (kind : MemberKind) {owns : List Own} {cause : Cause} {previous : Option UInt32}
    {ds : List UInt32} (h : deltas cause previous (owns.map Own.index) = .ok ds) :
    ∃ numbers : List UInt32, numbers.length = kind.width * owns.length ∧
      (ds.zipWith (writeOwn kind) owns).flatten = numbers.flatMap Write.uleb128 := by
  induction owns generalizing previous ds with
  | nil => exact ⟨[], rfl, by rw [List.zipWith_nil_right]; rfl⟩
  | cons own owns ih =>
    obtain ⟨delta, rest, rfl, -, -, hrest⟩ := exists_of_deltas_cons h
    obtain ⟨numbers, hlength, heq⟩ := ih hrest
    refine ⟨own.numbers kind delta ++ numbers, ?_, ?_⟩
    · rw [List.length_append, own.length_numbers, hlength, List.length_cons, Nat.mul_succ, Nat.add_comm]
    · rw [List.zipWith_cons_cons, List.flatten_cons, heq, writeOwn_eq, List.flatMap_append]

/-- A list of members is stepped over by its numbers. -/
theorem skipNumbers_list {image : Image} {kind : MemberKind} {owns : List Own} {form : List UInt8}
    (h : IsList kind owns form) {offset : Nat} (hheld : image.bytes.Holds offset form) {count : Nat}
    (hcount : owns.length = count) :
    skipNumbers image offset (kind.width * count) = .ok (UInt32.ofNat (offset + form.length)) := by
  obtain ⟨cause, ds, hds, rfl⟩ := h
  obtain ⟨numbers, hlength, heq⟩ := exists_numbers kind hds
  rw [heq] at hheld ⊢
  exact skipNumbers_eq hheld (hcount ▸ hlength)

/-! ## Classes that have been found -/

/-- A class of the blueprint has been located in an image, with its directory and its lists
of members. -/
structure Located (s : StoredClass) (b : Blueprint) (t : Blueprint.DataTables) (c : ClassDef) : Prop where
  opens : b.Opens t s.image
  index : b.classes[s.index.toNat]? = some c
  item : s.item = b.classDefItem t.toDataOffsets c
  directory_image : s.directory.image = s.image
  directory_of : s.directory.Of b t c
  count : ∀ kind, s.count kind = (b.rows t c kind).length
  lists : ∃ forms : MemberKind → List UInt8, (∀ kind, IsList kind ((b.rows t c kind).map Row.own) (forms kind)) ∧
    s.image.bytes.Holds s.membersOffset.toNat (concat forms)

/-- A class that has been found in an image is that of the blueprint. -/
structure Shows (s : StoredClass) (b : Blueprint) (t : Blueprint.DataTables) (c : ClassDef) : Prop
    extends Located s b t c where
  directory : s.directory.LeadsTo b t c

namespace Located

variable {s : StoredClass} {b : Blueprint} {t : Blueprint.DataTables} {c : ClassDef} (h : s.Located b t c)

include h

theorem mem : c ∈ b.classes :=
  List.mem_of_getElem? h.index

/-- If members are told apart, the directory leads to their annotations. -/
theorem shows (hs : b.Settled) : s.Shows b t c :=
  ⟨h, h.opens.leadsTo_of h.mem hs.toComplete (hs.distinct c h.mem) h.directory_of⟩

/-- A list begins behind the lists in front of it. -/
theorem exists_listStart (kind : MemberKind) : ∃ offset form, s.listStart kind = .ok offset ∧
    IsList kind ((b.rows t c kind).map Row.own) form ∧ s.image.bytes.Holds offset.toNat form := by
  obtain ⟨forms, hlists, hheld⟩ := h.lists
  have hsize := h.opens.size_lt
  have hcount : ∀ kind, ((b.rows t c kind).map Row.own).length = s.count kind := fun kind =>
    (List.length_map _).trans (h.count kind).symm
  -- every list stands behind what is in front of it, and is stepped over from there
  have hstands (kind : MemberKind) := (MemberKind.holds_concat hheld kind).2
  have hskip (kind : MemberKind) := skipNumbers_list (hlists kind) (hstands kind) (hcount kind)
  have hmark (kind : MemberKind) := (hstands kind).toNat_ofNat hsize
  have hfields := hskip .staticField
  have hmethods := hskip .instanceField
  have hvirtual := hskip .directMethod
  have hinstanceMark := hmark .instanceField
  have hdirectMark := hmark .directMethod
  simp only [MemberKind.before, List.flatMap_nil, List.flatMap_cons, List.length_nil, List.append_nil, Nat.add_zero,
    List.length_append, ← Nat.add_assoc] at hfields hmethods hvirtual hinstanceMark hdirectMark
  simp only [MemberKind.width, MemberKind.isMethod, StoredClass.count, Bool.false_eq_true, if_false] at hfields hmethods
  simp only [MemberKind.width, MemberKind.isMethod, StoredClass.count, if_true] at hvirtual
  refine ⟨UInt32.ofNat (s.membersOffset.toNat + (kind.before.flatMap forms).length), forms kind, ?_, hlists kind,
    (hmark kind).symm ▸ hstands kind⟩
  cases kind with
  | staticField => simp [listStart, MemberKind.before]
  | instanceField =>
    rw [listStart, hfields]
    simp [MemberKind.before]
  | directMethod =>
    rw [listStart, hfields, Result.ok_bind, hinstanceMark, hmethods]
    simp [MemberKind.before, Nat.add_assoc]
  | virtualMethod =>
    rw [listStart, hfields, Result.ok_bind, hinstanceMark, hmethods, Result.ok_bind, hdirectMark, hvirtual]
    simp [MemberKind.before, Nat.add_assoc]

/-! ### Restrictions -/

/-- The number of members in front of a list. -/
theorem preceding_eq (kind : MemberKind) : s.preceding kind = (kind.before.flatMap c.restrictionsOf).length := by
  have hcount : ∀ kind, s.count kind = (c.restrictionsOf kind).length := fun kind => by
    rw [h.count, Blueprint.length_rows]
  have hstatic := hcount .staticField
  have hinstance := hcount .instanceField
  have hdirect := hcount .directMethod
  simp only [StoredClass.count] at hstatic hinstance hdirect
  cases kind <;> simp [preceding, MemberKind.before, hstatic, hinstance, hdirect, Nat.add_assoc]

/-- The restrictions of the members of a list are delivered. -/
theorem hidden_eq (kind : MemberKind) :
    (s.hiddenStart = .ok none ∧ Delivers (nextHidden s.image) (fun flags r => hiddenApiOf flags = HiddenApi.reread r) none
        ((b.rows t c.kept kind).map Row.hidden)) ∨
      ∃ start offset, s.hiddenStart = .ok (some start) ∧ skipNumbers s.image start (s.preceding kind) = .ok offset ∧
        Delivers (nextHidden s.image) (fun flags r => hiddenApiOf flags = HiddenApi.reread r) (some offset)
          ((b.rows t c.kept kind).map Row.hidden) := by
  have hstart := h.opens.hiddenStart_eq rfl h.index
  rw [Blueprint.map_hidden_rows]
  cases hrestricted : c.isRestricted with
  | false =>
    have hnone : (c.restrictionsOf kind).map c.keptHidden = List.replicate (c.restrictionsOf kind).length none :=
      List.eq_replicate_iff.mpr ⟨List.length_map _, List.forall_mem_map.mpr fun r _ => by
        rw [ClassDef.keptHidden, hrestricted, if_neg Bool.false_ne_true]⟩
    rw [hnone]
    have hnext : nextHidden s.image none = .ok (none, none) := rfl
    exact .inl ⟨hstart.1 hrestricted,
      Delivers.replicate (R := fun flags r => hiddenApiOf flags = HiddenApi.reread r) hnext rfl _⟩
  | true =>
    obtain ⟨start, hsome, hheld⟩ := hstart.2 hrestricted
    have hkept : (c.restrictionsOf kind).map c.keptHidden =
        ((c.restrictionsOf kind).map fun r => (r.getD .unrestricted).kept).map some := by
      rw [List.map_map]
      refine List.map_congr_left fun r _ => ?_
      rw [ClassDef.keptHidden, if_pos hrestricted]
      rfl
    rw [ClassDef.writeFlags_eq hrestricted] at hheld
    obtain ⟨hbefore, hown⟩ := MemberKind.holds_concat hheld kind
    have hnumbers : (kind.before.flatMap fun kind => writeRestrictions ((c.restrictionsOf kind).map
        fun r => (r.getD .unrestricted).kept)) = ((kind.before.flatMap c.restrictionsOf).map fun r =>
          UInt32.ofNat (r.getD .unrestricted).kept.value).flatMap Write.uleb128 := by
      rw [List.map_flatMap, List.flatMap_assoc]
      simp only [writeRestrictions, List.flatMap_map]
    rw [hnumbers] at hbefore hown
    refine .inr ⟨start, _, hsome, skipNumbers_eq hbefore ?_, hkept ▸ delivers_nextHidden h.opens.size_lt hown⟩
    rw [List.length_map, h.preceding_eq]

/-! ### Initial values -/

/-- The initial values of static fields are delivered, and none behind them. -/
theorem exists_staticValues (hs : b.Complete) :
    ∃ values, s.staticValues = .ok values ∧ Delivers (nextValue s.image) (fun found v => s.image.valueAt found = .ok v)
      values ((b.rows t c.kept .staticField).map Row.value) := by
  have hitem : s.item.staticValuesOffset = if c.staticValues.isEmpty then noOffset else offsetIn t.arrays c.staticValues := by
    rw [h.item]
    rfl
  rw [Blueprint.map_value_staticRows, StoredClass.staticValues]
  by_cases hnil : c.staticValues = []
  · have hnext : nextValue s.image none = .ok (none, none) := rfl
    have hnone : s.item.staticValuesOffset = noOffset := hitem.trans (if_pos (List.isEmpty_iff.mpr hnil))
    rw [if_pos hnone, hnil]
    exact ⟨none, rfl, Delivers.replicate (R := fun found v => s.image.valueAt found = .ok v) hnext rfl _⟩
  · rw [List.isEmpty_eq_false_iff.mpr hnil, if_neg Bool.false_ne_true] at hitem
    obtain ⟨item, hmade, hheld, hoffset, -⟩ := h.opens.data.arrays.exists_item h.opens.size_lt hs.ranked.arrays.nodup
      (fun _ _ => Blueprint.fst_of_bind) (hs.ranked.arrays.mem_sortedKeys.mpr (hs.has_staticValues h.mem hnil))
    obtain ⟨form, hform, hmade⟩ := Result.bind_eq_ok hmade
    cases hmade
    obtain ⟨body, hbody, hform⟩ := Result.bind_eq_ok hform
    cases hform
    have hle := hheld.right.le_size
    have hlength := Value.length_le_length_encodeEach hbody
    have hsize := h.opens.size_lt
    have hcount : (UInt32.ofNat c.staticValues.length).toNat = c.staticValues.length :=
      UInt32.toNat_ofNat_of_lt' (Nat.lt_trans (Nat.lt_of_le_of_lt (by omega) hsize) (by decide))
    rw [if_neg (hitem ▸ hoffset), hitem]
    have hsmall : (UInt32.ofNat c.staticValues.length).toNat < extentBound := by omega
    have hread := ((yields_smallUleb128 hsmall).bind_mark fun count offset => some (offset, count.toNat)).at? hheld.left
    refine ⟨_, hread, ?_⟩
    rw [hcount]
    exact delivers_nextValue (h.opens.undoes hs.ranked hs.closed) (h.opens.ordered hs.ranked hs.closed) hsize hbody
      hheld.right _

/-! ### Lists of members -/

omit h in
/-- The reading of a list begins where the list, the initial values and the flags
begin. -/
theorem start_eq {kind : MemberKind} {offset : UInt32} {values : Option (UInt32 × Nat)} {hidden : Option UInt32}
    (hoffset : s.listStart kind = .ok offset)
    (hvalues : (if kind = .staticField then s.staticValues else pure none) = .ok values)
    (hhidden : (s.hiddenStart = .ok none ∧ hidden = none) ∨ ∃ start flags, s.hiddenStart = .ok (some start) ∧
      skipNumbers s.image start (s.preceding kind) = .ok flags ∧ hidden = some flags) :
    s.start kind = .ok ⟨offset, 0, values, hidden⟩ := by
  rw [StoredClass.start, hoffset, Result.ok_bind]
  rcases hhidden with ⟨hnone, rfl⟩ | ⟨start, flags, hsome, hskip, rfl⟩
  · simp only [hnone, Result.ok_bind, Result.pure_eq_ok]
    split at hvalues
    · rw [if_pos ‹_›, hvalues, Result.ok_bind]
    · rw [if_neg ‹_›, ← Except.ok.inj hvalues]
  · simp only [hsome, Result.ok_bind, hskip]
    split at hvalues
    · rw [if_pos ‹_›, hvalues]
      rfl
    · rw [if_neg ‹_›, hvalues]
      rfl

/-- The reading of a list begins where its entries stand, and where the initial values and
the restrictions that the file keeps are delivered. -/
theorem exists_start (hs : b.Complete) (kind : MemberKind) : ∃ (cursor : MemberCursor) (cause : Cause) (ds : List UInt32),
    s.start kind = .ok cursor ∧ cursor.previous = 0 ∧
    deltas cause none ((b.rows t c.kept kind).map fun row => row.own.index) = .ok ds ∧
    s.image.bytes.Holds cursor.offset.toNat (ds.zipWith (writeOwn kind) ((b.rows t c.kept kind).map Row.own)).flatten ∧
    Delivers (nextValue s.image) (fun found v => s.image.valueAt found = .ok v) cursor.values
      ((b.rows t c.kept kind).map Row.value) ∧
    Delivers (nextHidden s.image) (fun flags r => hiddenApiOf flags = HiddenApi.reread r) cursor.hidden
      ((b.rows t c.kept kind).map Row.hidden) := by
  obtain ⟨offset, form, hstart, ⟨cause, ds, hds, rfl⟩, hheld⟩ := h.exists_listStart kind
  rw [← Blueprint.map_own_rows_kept] at hds hheld
  rw [List.map_map] at hds
  obtain ⟨values, hvaluesStart, hdelivered⟩ : ∃ values,
      (if kind = .staticField then s.staticValues else pure none) = .ok values ∧
      Delivers (nextValue s.image) (fun found v => s.image.valueAt found = .ok v) values
        ((b.rows t c.kept kind).map Row.value) := by
    by_cases hkind : kind = .staticField
    · subst hkind
      obtain ⟨values, hvalues, hdelivered⟩ := h.exists_staticValues hs
      exact ⟨values, (if_pos rfl).trans hvalues, hdelivered⟩
    · have hnext : nextValue s.image none = .ok (none, none) := rfl
      refine ⟨none, if_neg hkind, ?_⟩
      rw [Blueprint.map_value_rows hkind]
      exact Delivers.replicate (R := fun found v => s.image.valueAt found = .ok v) hnext rfl _
  rcases h.hidden_eq kind with ⟨hnone, hhidden⟩ | ⟨start, flags, hsome, hskip, hhidden⟩
  · exact ⟨⟨offset, 0, values, none⟩, cause, ds, start_eq hstart hvaluesStart (.inl ⟨hnone, rfl⟩), rfl, hds, hheld,
      hdelivered, hhidden⟩
  · exact ⟨⟨offset, 0, values, some flags⟩, cause, ds,
      start_eq hstart hvaluesStart (.inr ⟨start, flags, hsome, hskip, rfl⟩), rfl, hds, hheld, hdelivered, hhidden⟩

/-- A list is read as it was written, with the initial values and the restrictions
that the file keeps. -/
theorem exists_entries (hs : b.Complete) (kind : MemberKind) (hsmall : ∀ row ∈ b.rows t c.kept kind, row.own.Small) :
    ∃ entries, s.entries kind = entries.map .ok ∧ List.Forall₂ (fun (row : Row) entry =>
      IsEntry s.image kind row.own row.value row.hidden entry) (b.rows t c.kept kind) entries := by
  obtain ⟨cursor, cause, ds, hstart, hprevious, hds, hheld, hvalues, hhidden⟩ := h.exists_start hs kind
  rw [entries, hstart, h.count, ← Blueprint.length_rows_kept]
  exact entriesFrom_eq h.opens.size_lt hds cursor hprevious hheld hvalues hhidden hsmall

/-- A list is read without a failure only if the flags of its members are small. -/
theorem flags_lt_of_entries (hs : b.Complete) (kind : MemberKind)
    (hcode : ∀ row ∈ b.rows t c.kept kind, row.own.code.toNat < extentBound) (hclean : Result.Clean (s.entries kind)) :
    ∀ row ∈ b.rows t c.kept kind, row.own.flags.toNat < extentBound := by
  obtain ⟨cursor, cause, ds, hstart, hprevious, hds, hheld, hvalues, hhidden⟩ := h.exists_start hs kind
  rw [entries, hstart, h.count, ← Blueprint.length_rows_kept] at hclean
  exact flags_lt_of_entriesFrom h.opens.size_lt hds cursor hprevious hheld hvalues hhidden hcode hclean

end Located

end StoredClass

end Dalvik
