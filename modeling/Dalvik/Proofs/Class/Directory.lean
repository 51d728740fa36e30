import Dalvik.Proofs.Class.Annotations
import Dalvik.Proofs.Class.Settled
import Dalvik.Proofs.Image.Bisection

/-!
# Annotations directories are searched as they were written

A table of members is searched without a miss if the members are told apart
(`Members.lookup_tableOf`). The directory of a class leads to the annotations of the
class and of each of its members (`Blueprint.Opens.exists_directoryOf`,
`Blueprint.Opens.leadsTo_of`).
-/

namespace Dalvik

/-! ## Searchable tables -/

namespace StoredDirectory

/-- The indices of a table ascend, and its offsets are small. -/
structure Searchable (table : List (UInt32 × UInt32)) : Prop where
  ascending : Ascends table
  offset_lt : ∀ entry ∈ table, entry.2.toNat < extentBound

end StoredDirectory

/-! ## Tables of members -/

namespace Members

variable {α : Type} {members : List α} {p : α → Bool} {key offset : α → UInt32}

/-- The table of those members that have an entry. -/
def tableOf (members : List α) (p : α → Bool) (key offset : α → UInt32) : List (UInt32 × UInt32) :=
  sortedEntries ((members.filter p).map fun m => (key m, offset m))

theorem mem_tableOf {entry : UInt32 × UInt32} :
    entry ∈ tableOf members p key offset ↔ ∃ m ∈ members, p m = true ∧ (key m, offset m) = entry := by
  rw [tableOf, (sortedEntries_perm _).mem_iff, List.mem_map]
  simp only [List.mem_filter, and_assoc]

variable (hkeys : (members.map key).Nodup)

include hkeys

theorem searchable_tableOf (hoffset : ∀ m ∈ members, p m = true → (offset m).toNat < extentBound) :
    StoredDirectory.Searchable (tableOf members p key offset) where
  ascending := by
    have hnodup : ((tableOf members p key offset).map Prod.fst).Nodup := by
      refine ((sortedEntries_perm _).map Prod.fst).nodup_iff.mpr ?_
      rw [List.map_map]
      exact hkeys.sublist (List.filter_sublist.map key)
    rw [List.Nodup, List.pairwise_map] at hnodup
    refine ((sortedEntries_pairwise _).and hnodup).imp fun {a b} hab => ?_
    obtain ⟨hle, hne⟩ := hab
    rw [entryLE_iff] at hle
    have : a.1.toNat ≠ b.1.toNat := fun heq => hne (UInt32.toNat_inj.mp heq)
    omega
  offset_lt entry hentry := by
    obtain ⟨m, hm, hp, rfl⟩ := mem_tableOf.mp hentry
    exact hoffset m hm hp

/-- A member is found in the table, if it has an entry there. -/
theorem lookup_tableOf (htable : StoredDirectory.Searchable (tableOf members p key offset)) {d : StoredDirectory}
    {start : Nat} {lookup : StoredDirectory → UInt32 → Result Nat}
    (h : d.Searches start lookup (tableOf members p key offset)) {m : α} (hm : m ∈ members) :
    lookup d (key m) = .ok (if p m then (offset m).toNat else 0) := by
  cases hp : p m with
  | true =>
    have hentry : (key m, offset m) ∈ tableOf members p key offset := mem_tableOf.mpr ⟨m, hm, hp, rfl⟩
    obtain ⟨place, hplace⟩ := List.getElem?_of_mem hentry
    rw [h.present htable.ascending place _ _ hplace, StoredDirectory.offsetAt_eq (htable.offset_lt _ hentry)]
    rfl
  | false =>
    refine h.missing _ fun hmem => ?_
    obtain ⟨entry, hentry, heq⟩ := List.mem_map.mp hmem
    obtain ⟨m', hm', hp', rfl⟩ := mem_tableOf.mp hentry
    have : m' = m := List.inj_on_of_nodup_map hkeys hm' hm heq
    rw [this, hp] at hp'
    cases hp'

end Members

/-! ## The directory of a class -/

theorem DirectoryItem.isEmpty_iff {item : DirectoryItem} : item.isEmpty = true ↔
    item.classOffset = 0 ∧ item.fields = [] ∧ item.methods = [] ∧ item.parameters = [] := by
  simp [isEmpty, and_assoc]

namespace StoredDirectory

open Read

variable {image : Image} {offset : Nat} {item : DirectoryItem} (hsize : image.bytes.size < extentBound)
  (hheld : image.bytes.Holds offset (Layout.write item))

include hheld

theorem holds_tables : image.bytes.Holds (offset + headSize) (item.fields.flatMap DirectoryItem.writeEntry) ∧
    image.bytes.Holds (offset + headSize + item.fields.length * entrySize)
      (item.methods.flatMap DirectoryItem.writeEntry) ∧
    image.bytes.Holds (offset + headSize + (item.fields.length + item.methods.length) * entrySize)
      (item.parameters.flatMap DirectoryItem.writeEntry) := by
  have htables : image.bytes.Holds (offset + headSize)
      ((item.fields ++ item.methods ++ item.parameters).flatMap DirectoryItem.writeEntry) := hheld.right
  rw [List.flatMap_append, List.flatMap_append] at htables
  have hparameters := htables.right
  have hmethods := htables.left.right
  rw [List.length_append, length_table, length_table, ← Nat.add_mul] at hparameters
  rw [length_table] at hmethods
  exact ⟨htables.left.left, hmethods, hparameters⟩

include hsize

/-- The head of a directory is read as it was written. -/
theorem at?_eq (hne : offset ≠ 0) : at? image offset =
    .ok ⟨image, offset, item.fields.length, item.methods.length, item.parameters.length⟩ := by
  have hform : image.bytes.Holds offset (Write.uint item.classOffset ++ (Write.uint (DirectoryItem.count item.fields) ++
      (Write.uint (DirectoryItem.count item.methods) ++ (Write.uint (DirectoryItem.count item.parameters) ++
        (item.fields ++ item.methods ++ item.parameters).flatMap DirectoryItem.writeEntry)))) := by
    rw [← List.append_assoc, ← List.append_assoc, ← List.append_assoc]
    exact hheld
  have hle := hform.le_size
  simp only [List.length_append, Write.length_uint, length_table] at hle
  unfold entrySize at hle
  have hcount : ∀ table : List (UInt32 × UInt32), table.length * 8 ≤ image.bytes.size →
      (DirectoryItem.count table).toNat = table.length := by
    intro table htable
    exact UInt32.toNat_ofNat_of_lt' (Nat.lt_trans (Nat.lt_of_le_of_lt (by omega) hsize) (by decide))
  have hfields := hcount item.fields (by omega)
  have hmethods := hcount item.methods (by omega)
  have hparameters := hcount item.parameters (by omega)
  rw [at?, if_neg hne]
  refine (Read.at?_eq image.bytes _ _ (by omega)).trans ?_
  rw [(yields_skip (Write.length_uint _)).on_bind _ hform.left,
    (yields_smallUint (by omega)).on_bind _ hform.right.left,
    (yields_smallUint (by omega)).on_bind _ hform.right.right.left,
    (yields_smallUint (by omega)).on_bind _ hform.right.right.right.left, Read.on_bind, on_remaining]
  simp only [hfields, hmethods, hparameters, Write.length_uint, entrySize]
  rw [if_neg (by omega)]
  rfl

/-- A directory that has been found is that of a class: its tables have the sizes that they
were written with, and they stand behind its head if there are any. -/
structure Of (d : StoredDirectory) (b : Blueprint) (t : Blueprint.DataTables) (c : ClassDef) : Prop where
  fieldCount : d.fieldCount = (Members.directory b.pools t.sets t.parameters c).fields.length
  methodCount : d.methodCount = (Members.directory b.pools t.sets t.parameters c).methods.length
  parameterCount : d.parameterCount = (Members.directory b.pools t.sets t.parameters c).parameters.length
  classOffset : d.classOffset = .ok (Members.setOffset t.sets c.annotations).toNat
  holds : (Members.directory b.pools t.sets t.parameters c).isEmpty = false →
    d.image.bytes.Holds d.offset (Layout.write (Members.directory b.pools t.sets t.parameters c))

omit hsize hheld in
/-- The tables of the directory of a class. -/
theorem Of.tables {d : StoredDirectory} {b : Blueprint} {t : Blueprint.DataTables} {c : ClassDef} (hd : d.Of b t c) :
    d.Tables (Members.directory b.pools t.sets t.parameters c).fields
      (Members.directory b.pools t.sets t.parameters c).methods
      (Members.directory b.pools t.sets t.parameters c).parameters where
  fieldCount := hd.fieldCount.symm
  methodCount := hd.methodCount.symm
  parameterCount := hd.parameterCount.symm
  fields := searches_of_holds (fun _ _ => hd.fieldCount ▸ rfl) fun hne =>
    (holds_tables (hd.holds (Bool.eq_false_iff.mpr fun hempty => hne (DirectoryItem.isEmpty_iff.mp hempty).2.1))).1
  methods := searches_of_holds (fun _ _ => hd.methodCount ▸ rfl) fun hne =>
    hd.fieldCount ▸ (holds_tables (hd.holds (Bool.eq_false_iff.mpr fun hempty =>
      hne (DirectoryItem.isEmpty_iff.mp hempty).2.2.1))).2.1
  parameters := searches_of_holds (fun _ _ => hd.parameterCount ▸ rfl) fun hne =>
    hd.fieldCount ▸ hd.methodCount ▸ (holds_tables (hd.holds (Bool.eq_false_iff.mpr fun hempty =>
      hne (DirectoryItem.isEmpty_iff.mp hempty).2.2.2))).2.2

/-- A directory leads to the annotations of a class and of its members. -/
structure LeadsTo (d : StoredDirectory) (b : Blueprint) (t : Blueprint.DataTables) (c : ClassDef) : Prop where
  classOffset : d.classOffset = .ok (Members.setOffset t.sets c.annotations).toNat
  fieldOffset : ∀ f ∈ c.fields,
    d.fieldOffset (b.pools.fields.indexOrNone f.sig) = .ok (Members.setOffset t.sets f.annotations).toNat
  methodOffset : ∀ m ∈ c.methods,
    d.methodOffset (b.pools.methods.indexOrNone m.sig) = .ok (Members.setOffset t.sets m.annotations).toNat
  parameterOffset : ∀ m ∈ c.methods,
    d.parameterOffset (b.pools.methods.indexOrNone m.sig) = .ok (offsetIn t.parameters m.sig).toNat

end StoredDirectory

namespace Blueprint

open Members StoredDirectory

variable {b : Blueprint} {t : DataTables}

theorem keys_parameterItems (sets : SetOffsets) : (b.parameterItems sets).map Prod.fst =
    (b.methods.filter fun cm => hasParameterAnnotations cm.2).map fun cm => cm.2.sig := by
  rw [parameterItems, List.map_map]
  rfl

theorem keys_directoryItems (b : Blueprint) (sets : SetOffsets) (parameters : Std.HashMap MethodSig Nat) :
    (b.directoryItems sets parameters).map Prod.fst =
      (b.classes.filter fun c => !(directory b.pools sets parameters c).isEmpty).map (·.type) := by
  rw [directoryItems, List.map_filterMap, List.filterMap_map, ← List.filterMap_eq_map, List.filterMap_filter]
  refine List.filterMap_congr fun c _ => ?_
  simp only [Function.comp_apply]
  split <;> simp_all

namespace Opens

variable {image : Image} (h : b.Opens t image)

include h

theorem parameters_lt (sig : MethodSig) : (offsetIn t.parameters sig).toNat < extentBound := by
  rcases h.data.parameters.offsetIn_eq_or h.size_lt sig with heq | ⟨form, -, -, -, hlt⟩
  · rw [heq]
    decide
  · exact hlt

variable {c : ClassDef} (hc : c ∈ b.classes)

include hc

section told

variable (hb : b.Complete)

include hb

theorem nodup_fieldIndices (hnodup : (c.fields.map FieldDef.sig).Nodup) :
    (c.fields.map fun f => b.pools.fields.indexOrNone f.sig).Nodup := by
  obtain ⟨ids, hmade, hids⟩ := h.identified.fields
  have := hids.nodup_indices hb.ranked.fields (Result.forall₂_of_mapM hmade).length_eq hnodup
    (List.forall_mem_map.mpr fun f hf => hb.has_field hc hf)
  rwa [List.map_map] at this

theorem nodup_methodIndices (hnodup : (c.methods.map MethodDef.sig).Nodup) :
    (c.methods.map fun m => b.pools.methods.indexOrNone m.sig).Nodup := by
  obtain ⟨ids, hmade, hids⟩ := h.identified.methods
  have := hids.nodup_indices hb.ranked.methods (Result.forall₂_of_mapM hmade).length_eq hnodup
    (List.forall_mem_map.mpr fun m hm => hb.has_method hc hm)
  rwa [List.map_map] at this

variable (hdistinct : c.Distinct)

include hdistinct

/-- The tables of the directory of a class can be searched. -/
theorem searchable_directory : Searchable (directory b.pools t.sets t.parameters c).fields ∧
    Searchable (directory b.pools t.sets t.parameters c).methods ∧
    Searchable (directory b.pools t.sets t.parameters c).parameters :=
  ⟨searchable_tableOf (h.nodup_fieldIndices hc hb hdistinct.fields) fun _ hf _ => h.setOffset_lt hb.ranked fun _ he =>
      hb.has_fieldAnnotations hc hf he,
    searchable_tableOf (h.nodup_methodIndices hc hb hdistinct.methods) fun _ hm _ => h.setOffset_lt hb.ranked fun _ he =>
      hb.has_methodAnnotations hc hm he,
    searchable_tableOf (h.nodup_methodIndices hc hb hdistinct.methods) fun m _ _ => h.parameters_lt m.sig⟩

/-- The directory of a class leads to the annotations of the class and of its members. -/
theorem leadsTo_of {d : StoredDirectory} (hd : d.Of b t c) : d.LeadsTo b t c := by
  have hempty : ∀ {annotations : List AnnotationItem}, (setOffset t.sets annotations).toNat =
      if (!annotations.isEmpty) = true then (setOffset t.sets annotations).toNat else 0 := by
    intro annotations
    cases h : annotations.isEmpty with
    | true =>
      rw [setOffset, h]
      rfl
    | false => rfl
  obtain ⟨hfields, hmethods, hparameters⟩ := h.searchable_directory hc hb hdistinct
  refine ⟨hd.classOffset, fun f hf => ?_, fun m hm => ?_, fun m hm => ?_⟩
  · rw [hempty]
    exact lookup_tableOf (h.nodup_fieldIndices hc hb hdistinct.fields) hfields hd.tables.fields hf
  · rw [hempty]
    exact lookup_tableOf (h.nodup_methodIndices hc hb hdistinct.methods) hmethods hd.tables.methods hm
  · have hcontains : (offsetIn t.parameters m.sig).toNat =
        if t.parameters.contains m.sig then (offsetIn t.parameters m.sig).toNat else 0 := by
      cases h : t.parameters.contains m.sig with
      | true => rfl
      | false =>
        rw [offsetIn, Std.HashMap.getElem?_eq_none (by simp [← Std.HashMap.contains_iff_mem, h])]
        rfl
    rw [hcontains]
    exact lookup_tableOf (h.nodup_methodIndices hc hb hdistinct.methods) hparameters hd.tables.parameters hm

end told

/-- The directory of a class is found. -/
theorem exists_directoryOf (ht : b.Typed) : ∃ d, StoredDirectory.at? image (offsetIn t.directories c.type).toNat = .ok d ∧
    d.image = image ∧ d.Of b t c := by
  obtain ⟨d, hd⟩ : ∃ d, directory b.pools t.sets t.parameters c = d := ⟨_, rfl⟩
  have hkeys := keys_directoryItems b t.sets t.parameters
  cases hempty : d.isEmpty with
  | true =>
    obtain ⟨hclass, hfields, hmethods, hparameters⟩ := DirectoryItem.isEmpty_iff.mp hempty
    have hnone : c.type ∉ (b.directoryItems t.sets t.parameters).map Prod.fst := fun hmem => by
      rw [hkeys] at hmem
      obtain ⟨c', hc', htype⟩ := List.mem_map.mp hmem
      obtain ⟨hc', hfilled⟩ := List.mem_filter.mp hc'
      rw [List.inj_on_of_nodup_map ht.types hc' hc htype, hd, hempty] at hfilled
      cases hfilled
    have hset : setOffset t.sets c.annotations = 0 := hclass ▸ congrArg DirectoryItem.classOffset hd
    rw [h.data.directories.offsetIn_of_notMem hnone]
    refine ⟨_, rfl, rfl, by rw [hd, hfields]; rfl, by rw [hd, hmethods]; rfl, by rw [hd, hparameters]; rfl,
      by rw [hset]; rfl, fun hfalse => ?_⟩
    rw [hd, hempty] at hfalse
    cases hfalse
  | false =>
    have hnodup : ((b.directoryItems t.sets t.parameters).map Prod.fst).Nodup := by
      rw [hkeys]
      exact ht.types.sublist (List.filter_sublist.map _)
    have hitem : (c.type, Layout.write d) ∈ b.directoryItems t.sets t.parameters := by
      refine List.mem_filterMap.mpr ⟨(c.type, d), hd ▸ List.mem_map_of_mem hc, ?_⟩
      simp [hempty]
    obtain ⟨hheld, hne, -⟩ := h.data.directories.holds h.size_lt hnodup hitem
    have hpos : (offsetIn t.directories c.type).toNat ≠ 0 := fun hzero => hne (UInt32.toNat_inj.mp hzero)
    have hlt : d.classOffset.toNat < extentBound := by
      rw [← hd]
      exact h.setOffset_lt ht.ranked fun e he => ht.has_annotations hc he
    subst hd
    refine ⟨_, at?_eq h.size_lt hheld hpos, rfl, rfl, rfl, rfl, ?_, fun _ => hheld⟩
    rw [classOffset, if_neg hpos]
    exact congrArg (Except.map UInt32.toNat) ((Read.yields_smallUint hlt).at? hheld.left.left.left.left)

end Opens

end Blueprint

end Dalvik
