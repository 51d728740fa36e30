import Dalvik.Proofs.Class.Members

/-!
# The classes of a file are found

`Blueprint.Opens.exists_located`: behind each index of a class the image finds this
class, with its annotations directory and with its class data if it has any.
-/

namespace Dalvik

open Members

namespace StoredClass

open Read

/-- Entries take up as many bytes as they have numbers, or more. -/
theorem IsList.le_length {kind : MemberKind} {owns : List Own} {form : List UInt8} (h : IsList kind owns form) :
    kind.width * owns.length ≤ form.length := by
  obtain ⟨cause, ds, hds, rfl⟩ := h
  obtain ⟨numbers, hlength, heq⟩ := exists_numbers kind hds
  rw [heq, ← hlength, List.flatMap_def, ← List.length_map Write.uleb128]
  refine length_le_length_flatten fun form hform => ?_
  obtain ⟨number, -, rfl⟩ := List.mem_map.mp hform
  exact Leb128.encodeUnsigned_ne_nil _

/-- The class data: the sizes of the lists, and the lists. -/
def writeData (counts : MemberKind → Nat) (forms : MemberKind → List UInt8) : List UInt8 :=
  Write.uleb128 (UInt32.ofNat (counts .staticField)) ++ (Write.uleb128 (UInt32.ofNat (counts .instanceField)) ++
    (Write.uleb128 (UInt32.ofNat (counts .directMethod)) ++ (Write.uleb128 (UInt32.ofNat (counts .virtualMethod)) ++
      MemberKind.concat forms)))

/-- The sizes in front of the lists are read as they were written. -/
theorem readSizes_eq {view : StoredClass} {offset : Nat} {counts : MemberKind → Nat} {forms : MemberKind → List UInt8}
    (hheld : view.image.bytes.Holds offset (writeData counts forms))
    (hsize : view.image.bytes.size < extentBound)
    (hle : ∀ kind, kind.width * counts kind ≤ (forms kind).length) :
    ∃ start, view.image.readAt (view.readSizes offset) offset = .ok { view with
      staticCount := counts .staticField, instanceCount := counts .instanceField
      directCount := counts .directMethod, virtualCount := counts .virtualMethod, membersOffset := start } ∧
      view.image.bytes.Holds start.toNat (MemberKind.concat forms) := by
  have hend := hheld.right.right.right.right.le_size
  have hstatic := hle .staticField
  have hinstance := hle .instanceField
  have hdirect := hle .directMethod
  have hvirtual := hle .virtualMethod
  simp only [MemberKind.width, MemberKind.isMethod, Bool.false_eq_true, if_false, if_true] at hstatic hinstance hdirect hvirtual
  have hroom := hend
  simp only [MemberKind.concat, List.length_append] at hroom
  have hnat : ∀ kind, counts kind < extentBound → (UInt32.ofNat (counts kind)).toNat = counts kind := fun kind hlt =>
    UInt32.toNat_ofNat_of_lt' (Nat.lt_trans hlt (by decide))
  have hs := hnat .staticField (by omega)
  have hi := hnat .instanceField (by omega)
  have hd := hnat .directMethod (by omega)
  have hv := hnat .virtualMethod (by omega)
  have hstart := hheld.right.right.right.right
  refine ⟨_, (Read.at?_eq view.image.bytes _ _ (by omega)).trans ?_, (hstart.toNat_ofNat hsize).symm ▸ hstart⟩
  rw [readSizes, Read.on_bind, readCounts, (yields_smallUleb128 (by omega)).on_bind _ hheld.left,
    (yields_smallUleb128 (by omega)).on_bind _ hheld.right.left,
    (yields_smallUleb128 (by omega)).on_bind _ hheld.right.right.left,
    (yields_smallUleb128 (by omega)).on_bind _ hheld.right.right.right.left]
  simp only [hs, hi, hd, hv]
  rw [Read.on_bind, on_remaining]
  dsimp only
  rw [if_neg (by omega)]
  rfl

end StoredClass

namespace Blueprint

open StoredClass (IsList writeOwn)

variable {b : Blueprint} {t : DataTables} {c : ClassDef}

theorem isList_writeFields {fields : List FieldDef} {form : List UInt8} {kind : MemberKind}
    (hkind : kind.isMethod = false) (h : writeFields b.pools c.type fields = .ok form) :
    IsList kind ((fields.map b.fieldRow).map Row.own) form := by
  obtain ⟨ds, hds, h⟩ := Result.bind_eq_ok h
  refine ⟨.fieldsOutOfOrder c.type, ds, ?_, ?_⟩
  · rw [List.map_map, List.map_map]
    exact hds
  · rw [← Except.ok.inj h, List.map_map, List.zipWith_map_right]
    simp only [Function.comp_apply, writeOwn, hkind, Bool.false_eq_true, if_false, List.append_nil]
    rfl

theorem isList_writeMethods {methods : List MethodDef} {form : List UInt8} {kind : MemberKind}
    (hkind : kind.isMethod = true) (h : writeMethods b.pools t.code c.type methods = .ok form) :
    IsList kind ((methods.map (b.methodRow t)).map Row.own) form := by
  obtain ⟨ds, hds, h⟩ := Result.bind_eq_ok h
  refine ⟨.methodsOutOfOrder c.type, ds, ?_, ?_⟩
  · rw [List.map_map, List.map_map]
    exact hds
  · rw [← Except.ok.inj h, List.map_map, List.zipWith_map_right]
    simp only [Function.comp_apply, writeOwn, hkind, if_true, ← List.append_assoc]
    rfl

/-- The class data of a class are the sizes of its lists of members, and the
lists. -/
theorem exists_lists {form : List UInt8} (h : writeClassData b.pools t.code c = .ok form) :
    ∃ forms : MemberKind → List UInt8, form = StoredClass.writeData (fun kind => (b.rows t c kind).length) forms ∧
      ∀ kind, IsList kind ((b.rows t c kind).map Row.own) (forms kind) := by
  obtain ⟨statics, hstatics, h⟩ := Result.bind_eq_ok h
  obtain ⟨instances, hinstances, h⟩ := Result.bind_eq_ok h
  obtain ⟨directs, hdirects, h⟩ := Result.bind_eq_ok h
  obtain ⟨virtuals, hvirtuals, h⟩ := Result.bind_eq_ok h
  refine ⟨MemberKind.each statics instances directs virtuals, ?_, fun kind => ?_⟩
  · rw [← Except.ok.inj h]
    simp [StoredClass.writeData, MemberKind.concat, MemberKind.each, writeCount, rows]
  · cases kind with
    | staticField => exact isList_writeFields rfl hstatics
    | instanceField => exact isList_writeFields rfl hinstances
    | directMethod => exact isList_writeMethods rfl hdirects
    | virtualMethod => exact isList_writeMethods rfl hvirtuals

theorem rows_eq_nil (h : c.hasMembers = false) (kind : MemberKind) : b.rows t c kind = [] := by
  simp only [ClassDef.hasMembers, ClassDef.fields, ClassDef.methods, Bool.or_eq_false_iff, Bool.not_eq_false',
    List.isEmpty_iff, List.append_eq_nil_iff] at h
  obtain ⟨⟨hstatic, hinstance⟩, hdirect, hvirtual⟩ := h
  cases kind <;> simp [rows, hstatic, hinstance, hdirect, hvirtual]

namespace Opens

variable {image : Image} (h : b.Opens t image) (ht : b.Typed)

include h ht

/-- Before its members are counted, a class is its definition and its directory. -/
theorem exists_at? {i : Nat} (hc : b.classes[i]? = some c) : (UInt32.ofNat i).toNat = i ∧
    ∃ view : StoredClass, view.image = image ∧ view.index = UInt32.ofNat i ∧
      view.item = b.classDefItem t.toDataOffsets c ∧ view.directory.image = image ∧ view.directory.Of b t c ∧
      (∀ kind, view.count kind = 0) ∧ view.membersOffset = 0 ∧ StoredClass.at? image (UInt32.ofNat i) =
        if (offsetIn t.classData c.type).toNat = 0 then .ok view
        else image.readAt (view.readSizes (offsetIn t.classData c.type).toNat)
          (offsetIn t.classData c.type).toNat := by
  have hids := h.identified.classes
  have hid : (b.classes.map (b.classDefItem t.toDataOffsets))[i]? = some (b.classDefItem t.toDataOffsets c) := by
    rw [List.getElem?_map, hc, Option.map_some]
  have hindex : (UInt32.ofNat i).toNat = i :=
    UInt32.toNat_ofNat_of_lt' (Nat.lt_trans (hids.index_lt h.size_lt (by decide) hid) (by decide))
  rw [← hindex] at hid
  obtain ⟨directory, hdirectory, himage, hof⟩ := h.exists_directoryOf (List.mem_of_getElem? hc) ht
  refine ⟨hindex, ⟨image, UInt32.ofNat i, b.classDefItem t.toDataOffsets c, directory, 0, 0, 0, 0, 0⟩, rfl, rfl, rfl,
    himage, hof, fun kind => by cases kind <;> rfl, rfl, ?_⟩
  rw [StoredClass.at?, Image.classDefOffset, h.classDefs, hids.sectionOffset_eq hid, Result.ok_bind,
    hids.readAt_eq rfl hid (Layout.reads_classDefItem _), Result.ok_bind]
  dsimp only [classDefItem]
  rw [hdirectory]
  rfl

/-- A class has class data exactly if it has members. -/
theorem classData_eq (hc : c ∈ b.classes) : (c.hasMembers = false → offsetIn t.classData c.type = noOffset) ∧
    (c.hasMembers = true → offsetIn t.classData c.type ≠ noOffset ∧ ∃ form,
      writeClassData b.pools t.code c = .ok form ∧ image.bytes.Holds (offsetIn t.classData c.type).toNat form) := by
  have hkeyOf : ∀ (c' : ClassDef) (item : String × List UInt8),
      (do return (c'.type, ← writeClassData b.pools t.code c')) = Except.ok item → item.1 = c'.type :=
    fun _ _ => fst_of_bind
  constructor
  · intro hmembers
    refine h.data.classData.offsetIn_eq_noOffset hkeyOf fun c' hc' htype => ?_
    obtain ⟨hc', hfilled⟩ := List.mem_filter.mp hc'
    rw [List.inj_on_of_nodup_map ht.types hc' hc htype, hmembers] at hfilled
    cases hfilled
  · intro hmembers
    have hnodup : ((b.classes.filter ClassDef.hasMembers).map (·.type)).Nodup :=
      ht.types.sublist (List.filter_sublist.map _)
    obtain ⟨item, hmade, hheld, hne, -⟩ := h.data.classData.exists_item_of h.size_lt hnodup hkeyOf
      (List.mem_filter.mpr ⟨hc, hmembers⟩)
    obtain ⟨form, hform, hmade⟩ := Result.bind_eq_ok hmade
    cases hmade
    exact ⟨hne, form, hform, hheld⟩

/-- A class is found by its index. -/
theorem exists_located {i : Nat} (hc : b.classes[i]? = some c) : ∃ s : StoredClass,
    StoredClass.at? image (UInt32.ofNat i) = .ok s ∧ s.image = image ∧ s.Located b t c := by
  obtain ⟨hindex, view, rfl, hviewIndex, hitem, himage, hof, hcount, hstart, hat⟩ := h.exists_at? ht hc
  obtain ⟨hbare, hfilled⟩ := h.classData_eq ht (List.mem_of_getElem? hc)
  have hplace : b.classes[view.index.toNat]? = some c := by rw [hviewIndex, hindex, hc]
  rw [hat]
  cases hmembers : c.hasMembers with
  | false =>
    have hrows := rows_eq_nil (b := b) (t := t) hmembers
    have hnone : (offsetIn t.classData c.type).toNat = 0 := by rw [hbare hmembers]; rfl
    refine ⟨view, if_pos hnone, rfl, h, hplace, hitem, himage, hof, fun kind => ?_, fun _ => [], fun kind => ?_, ?_⟩
    · rw [hcount, hrows, List.length_nil]
    · rw [hrows]
      exact ⟨.fieldsOutOfOrder c.type, [], rfl, rfl⟩
    · rw [hstart]
      exact .nil (Nat.zero_le _)
  | true =>
    obtain ⟨hne, form, hform, hheld⟩ := hfilled hmembers
    obtain ⟨forms, rfl, hlists⟩ := exists_lists hform
    have hle : ∀ kind, kind.width * (b.rows t c kind).length ≤ (forms kind).length := fun kind => by
      rw [← List.length_map Row.own]
      exact (hlists kind).le_length
    obtain ⟨start, hread, hstart⟩ := StoredClass.readSizes_eq hheld h.size_lt hle
    refine ⟨_, (if_neg fun hzero => hne (UInt32.toNat_inj.mp hzero)).trans hread, rfl, h, hplace, hitem, himage, hof,
      fun kind => ?_, forms, hlists, hstart⟩
    cases kind <;> rfl

omit ht in
/-- A class whose members are told apart is found by its index. -/
theorem exists_shown {i : Nat} (hs : b.Settled) (hc : b.classes[i]? = some c) : ∃ s : StoredClass,
    StoredClass.at? image (UInt32.ofNat i) = .ok s ∧ s.image = image ∧ s.Shows b t c := by
  obtain ⟨s, hat, himage, hlocated⟩ := h.exists_located hs.toTyped hc
  exact ⟨s, hat, himage, hlocated.shows hs⟩

end Opens

end Blueprint

end Dalvik
