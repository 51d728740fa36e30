import Mathlib.Data.List.Nodup
import Dalvik.Proofs.Assembly.Placement
import Dalvik.Proofs.Layout
import Dalvik.Proofs.Outcome

/-!
# Sections stand where their tables say

Writing a section extends a draft, notes the section for the map, and gives a
table of the offsets of its items (`Draft.writeSection_writes`). The sections of a
draft stand one behind the other (`Draft.Laid`), and a table finds its items in
every file that the draft stands in (`Draft.TableOf.stands`, `Draft.Stands.holds`).
-/

namespace Dalvik

/-! ## Narrow indices -/

theorem narrow_eq_ok {what : String} {index : Nat} {v : UInt16} (h : narrow what index = .ok v) : v.toNat = index := by
  unfold narrow at h
  split at h
  · cases h
  · cases h
    exact UInt16.toNat_ofNat_of_lt' (Nat.lt_succ_of_le (Nat.not_lt.mp ‹_›))

/-- An index that has been narrowed is widened to itself. -/
theorem ofNat_of_narrow {what : String} {index : UInt32} {v : UInt16} (h : narrow what index.toNat = .ok v) :
    UInt32.ofNat v.toNat = index := by
  rw [narrow_eq_ok h, UInt32.ofNat_toNat]

variable {κ : Type}

/-! ## Tables of offsets -/

/-- What a table made from a list leads to stands in the list. -/
theorem mem_of_getElem?_insertMany [BEq κ] [Hashable κ] [LawfulBEq κ] [LawfulHashable κ] {β : Type}
    {entries : List (κ × β)} {table : Std.HashMap κ β} {key : κ} {i : β}
    (h : (table.insertMany entries)[key]? = some i) : table[key]? = some i ∨ (key, i) ∈ entries := by
  induction entries generalizing table with
  | nil =>
    rw [Std.HashMap.insertMany_nil] at h
    exact .inl h
  | cons entry entries ih =>
    rw [Std.HashMap.insertMany_cons] at h
    rcases ih h with h | hmem
    · rw [Std.HashMap.getElem?_insert] at h
      split at h
      · rename_i heq
        rw [← beq_iff_eq.mp heq, ← Option.some.inj h]
        exact .inr List.mem_cons_self
      · exact .inl h
    · exact .inr (List.mem_cons_of_mem _ hmem)

/-- Keys and offsets at which items with these keys stand in a file. -/
def Draft.Placed (bytes : Bytes) (items : List (κ × List UInt8)) (placed : List (κ × Nat)) : Prop :=
  List.Forall₂ (fun entry item => entry.1 = item.1 ∧ 0 < entry.2 ∧ bytes.Holds entry.2 item.2) placed items

/-- Offsets go up from item to item, if every item takes up room. -/
def Draft.Ascends (items : List (κ × List UInt8)) (placed : List (κ × Nat)) : Prop :=
  (∀ item ∈ items, item.2 ≠ []) → placed.Pairwise fun a b => a.2 < b.2

/-- Items stand in a file where a table says, one behind the other. -/
def Draft.Stands [BEq κ] [Hashable κ] (bytes : Bytes) (items : List (κ × List UInt8)) (table : Std.HashMap κ Nat) :
    Prop :=
  ∃ placed, table = .ofList placed ∧ Placed bytes items placed ∧ Ascends items placed

namespace Draft.Placed

variable {bytes : Bytes} {items : List (κ × List UInt8)} {placed : List (κ × Nat)}

theorem keys_eq (h : Placed bytes items placed) : placed.map Prod.fst = items.map Prod.fst := by
  induction h with
  | nil => rfl
  | cons hentry _ ih => rw [List.map_cons, List.map_cons, hentry.1, ih]

theorem exists_of_mem (h : Placed bytes items placed) {item : κ × List UInt8} (hitem : item ∈ items) :
    ∃ offset, (item.1, offset) ∈ placed ∧ 0 < offset ∧ bytes.Holds offset item.2 := by
  obtain ⟨⟨key, offset⟩, hmem, hkey, hholds⟩ := exists_mem_left h hitem
  exact ⟨offset, hkey ▸ hmem, hholds⟩

end Draft.Placed

namespace Draft.Stands

variable [BEq κ] [Hashable κ] [LawfulBEq κ] [LawfulHashable κ]
variable {bytes : Bytes} {items : List (κ × List UInt8)} {table : Std.HashMap κ Nat}

omit [BEq κ] [Hashable κ] [LawfulBEq κ] [LawfulHashable κ] in
theorem toNat_offset {offset : Nat} {form : List UInt8} (h : bytes.Holds offset form) (hsize : bytes.size < extentBound) :
    (UInt32.ofNat offset).toNat = offset := by
  have hle := h.le_size
  exact UInt32.toNat_ofNat_of_lt' (Nat.lt_trans (Nat.lt_of_le_of_lt (by omega) hsize) (by decide))

theorem offsetIn_ofList {placed : List (κ × Nat)} (hnodup : (placed.map Prod.fst).Nodup) {entry : κ × Nat}
    (hentry : entry ∈ placed) : offsetIn (.ofList placed) entry.1 = UInt32.ofNat entry.2 := by
  have hdistinct : placed.Pairwise fun a b => (a.1 == b.1) = false := by
    rw [List.Nodup, List.pairwise_map] at hnodup
    exact hnodup.imp fun hne => beq_eq_false_iff_ne.mpr hne
  rw [offsetIn, Std.HashMap.getElem?_ofList_of_mem (beq_self_eq_true entry.1) hdistinct hentry]

/-- An offset of the table is that of an item. -/
theorem exists_item_at (h : Stands bytes items table) (hsize : bytes.size < extentBound) {key : κ} {offset : Nat}
    (hoffset : table[key]? = some offset) : ∃ form, (key, form) ∈ items ∧ bytes.Holds (offsetIn table key).toNat form ∧
      offsetIn table key ≠ noOffset ∧ (offsetIn table key).toNat < extentBound := by
  have hfound : offsetIn table key = UInt32.ofNat offset := by rw [offsetIn, hoffset]
  rw [hfound]
  obtain ⟨placed, rfl, hplaced, -⟩ := h
  rw [Std.HashMap.ofList_eq_insertMany_empty] at hoffset
  have hmem : (key, offset) ∈ placed := by
    rcases mem_of_getElem?_insertMany hoffset with hnone | hmem
    · rw [Std.HashMap.getElem?_empty] at hnone
      cases hnone
    · exact hmem
  obtain ⟨⟨_, form⟩, hitem, rfl, hpos, hholds⟩ := exists_mem_right hplaced hmem
  have htoNat : (UInt32.ofNat offset).toNat = offset := toNat_offset hholds hsize
  have hle : offset + form.length ≤ bytes.size := hholds.le_size
  refine ⟨form, hitem, htoNat.symm ▸ hholds, fun hzero => ?_, by omega⟩
  rw [hzero] at htoNat
  exact absurd htoNat.symm (Nat.ne_of_gt hpos)

/-- What the table has for a key is the offset of an item with this key, also if several
items have it. -/
theorem offsetIn_eq_or (h : Stands bytes items table) (hsize : bytes.size < extentBound) (key : κ) :
    offsetIn table key = noOffset ∨ ∃ form, (key, form) ∈ items ∧ bytes.Holds (offsetIn table key).toNat form ∧
      offsetIn table key ≠ noOffset ∧ (offsetIn table key).toNat < extentBound := by
  cases hoffset : table[key]? with
  | none => exact .inl (by rw [offsetIn, hoffset])
  | some offset => exact .inr (h.exists_item_at hsize hoffset)

/-- The table finds an item, if no other item has its key. -/
theorem holds_of_forall (h : Stands bytes items table) (hsize : bytes.size < extentBound) {key : κ}
    {form : List UInt8} (hitem : (key, form) ∈ items) (halone : ∀ other, (key, other) ∈ items → other = form) :
    bytes.Holds (offsetIn table key).toNat form ∧ offsetIn table key ≠ noOffset ∧
      (offsetIn table key).toNat < extentBound := by
  obtain ⟨offset, hoffset⟩ : ∃ offset, table[key]? = some offset := by
    obtain ⟨placed, rfl, hplaced, -⟩ := h
    obtain ⟨offset, hmem, -⟩ := hplaced.exists_of_mem hitem
    refine Option.isSome_iff_exists.mp ?_
    rw [Std.HashMap.isSome_getElem?_iff_mem, Std.HashMap.mem_ofList, List.contains_iff_mem]
    exact List.mem_map_of_mem hmem
  obtain ⟨other, hother, hfound⟩ := h.exists_item_at hsize hoffset
  exact halone other hother ▸ hfound

/-- The table finds an item, if no two items have its key. -/
theorem holds (h : Stands bytes items table) (hsize : bytes.size < extentBound) (hnodup : (items.map Prod.fst).Nodup)
    {key : κ} {form : List UInt8} (hitem : (key, form) ∈ items) :
    bytes.Holds (offsetIn table key).toNat form ∧ offsetIn table key ≠ noOffset ∧
      (offsetIn table key).toNat < extentBound :=
  h.holds_of_forall hsize hitem fun _ hother => congrArg Prod.snd (List.inj_on_of_nodup_map hnodup hother hitem rfl)

/-- Items that take up room are found at offsets that go up. -/
theorem offsetIn_pairwise (h : Stands bytes items table) (hsize : bytes.size < extentBound)
    (hnodup : (items.map Prod.fst).Nodup) (hne : ∀ item ∈ items, item.2 ≠ []) :
    (items.map Prod.fst).Pairwise fun key key' => offsetIn table key < offsetIn table key' := by
  obtain ⟨placed, rfl, hplaced, hascends⟩ := h
  rw [← hplaced.keys_eq] at hnodup ⊢
  have hoffset : ∀ entry ∈ placed, (offsetIn (.ofList placed) entry.1).toNat = entry.2 := by
    intro entry hentry
    obtain ⟨item, -, -, -, hholds⟩ := exists_mem_right hplaced hentry
    rw [offsetIn_ofList hnodup hentry, toNat_offset hholds hsize]
  rw [List.pairwise_map]
  refine (hascends hne).imp_of_mem fun {a b} ha hb hlt => ?_
  rwa [UInt32.lt_iff_toNat_lt, hoffset a ha, hoffset b hb]

/-- The table has nothing for keys without an item. -/
theorem offsetIn_of_notMem (h : Stands bytes items table) {key : κ} (hkey : key ∉ items.map Prod.fst) :
    offsetIn table key = noOffset := by
  obtain ⟨placed, rfl, hplaced, -⟩ := h
  have hcontains : (placed.map Prod.fst).contains key = false := by
    rw [hplaced.keys_eq]
    simpa using hkey
  rw [offsetIn, Std.HashMap.getElem?_ofList_of_contains_eq_false hcontains]

end Draft.Stands

namespace Draft

/-! ## Sections -/

/-- The entry of a section in the map, unless the section is empty. -/
def mapEntry (type : ItemType) (count offset : Nat) : List MapItem :=
  if count = 0 then [] else [⟨type.typeCode, UInt32.ofNat count, UInt32.ofNat offset⟩]

/-- The entries of sections, each given by its type, count and offset. -/
def mapEntries (sections : List (ItemType × Nat × Nat)) : List MapItem :=
  sections.flatMap fun s => mapEntry s.1 s.2.1 s.2.2

theorem mapEntries_append (sections sections' : List (ItemType × Nat × Nat)) :
    mapEntries (sections ++ sections') = mapEntries sections ++ mapEntries sections' :=
  List.flatMap_append

theorem mapEntries_cons (s : ItemType × Nat × Nat) (sections : List (ItemType × Nat × Nat)) :
    mapEntries (s :: sections) = mapEntry s.1 s.2.1 s.2.2 ++ mapEntries sections :=
  List.flatMap_cons

theorem note_sections (d : Draft) (type : ItemType) (count offset : Nat) :
    (d.note type count offset).sections.toList = d.sections.toList ++ mapEntry type count offset := by
  unfold note mapEntry
  split <;> simp

theorem size_note_le (d : Draft) (type : ItemType) (count offset : Nat) :
    (d.note type count offset).sections.size ≤ d.sections.size + 1 := by
  unfold note
  split <;> simp

theorem length_mapEntry_le (type : ItemType) (count offset : Nat) : (mapEntry type count offset).length ≤ 1 := by
  unfold mapEntry
  split <;> simp

theorem length_mapEntries_le (sections : List (ItemType × Nat × Nat)) :
    (mapEntries sections).length ≤ sections.length := by
  induction sections with
  | nil => exact Nat.le_refl _
  | cons s sections ih =>
    have := length_mapEntry_le s.1 s.2.1 s.2.2
    rw [mapEntries_cons, List.length_append, List.length_cons]
    omega

/-- What the map says of a run of items of one kind: how many there are, and where the
first of them is. -/
def summary (type : ItemType) (run : Run) : ItemType × Nat × Nat :=
  (type, run.length, (run.head?.map Prod.fst).getD 0)

/-- The sections of a draft stand one behind the other from `base` on, and the draft
has noted them. -/
structure Laid (d : Draft) (base : Nat) (sections : List (ItemType × Run)) : Prop where
  between : Run.Between base (sections.flatMap Prod.snd) d.out.position
  noted : d.sections.toList = mapEntries (sections.map fun s => summary s.1 s.2)
  aligned : ∀ s ∈ sections, ∀ p ∈ s.2, p.1 % s.1.alignment = 0
  occupied : ∀ s ∈ sections, ∀ p ∈ s.2, p.2 ≠ []
  holds : ∀ bytes, d.out.In bytes → ∀ s ∈ sections, ∀ p ∈ s.2, bytes.Holds p.1 p.2

theorem laid_startingAt (base : Nat) : (startingAt base).Laid base [] where
  between := Nat.le_refl _
  noted := rfl
  aligned := fun _ hs => nomatch hs
  occupied := fun _ hs => nomatch hs
  holds := fun _ _ _ hs => nomatch hs

/-- Padding behind the sections leaves them where they are. -/
theorem Laid.extend {d d' : Draft} {base : Nat} {sections : List (ItemType × Run)} (h : d.Laid base sections)
    (hgrows : d.out.Extends d'.out) (hsections : d'.sections = d.sections) : d'.Laid base sections where
  between := h.between.mono (Nat.le_refl _) hgrows.position_le
  noted := hsections ▸ h.noted
  aligned := h.aligned
  occupied := h.occupied
  holds := fun bytes hin => h.holds bytes (hin.of_extends hgrows)

theorem Laid.between_of_mem {d : Draft} {base : Nat} {sections : List (ItemType × Run)} (h : d.Laid base sections)
    {s : ItemType × Run} (hs : s ∈ sections) : Run.Between base s.2 d.out.position :=
  h.between.of_mem hs

variable [BEq κ] [Hashable κ]

/-- The section of a kind consists of items, and a table has their offsets. -/
def TableOf (sections : List (ItemType × Run)) (type : ItemType) (items : List (κ × List UInt8))
    (table : Std.HashMap κ Nat) : Prop :=
  ∃ placed : List (κ × Nat × List UInt8), (type, placed.map Prod.snd) ∈ sections ∧
    placed.map (fun p => (p.1, p.2.2)) = items ∧ table = .ofList (placed.map fun p => (p.1, p.2.1))

namespace TableOf

variable {sections : List (ItemType × Run)} {type : ItemType} {items : List (κ × List UInt8)}
  {table : Std.HashMap κ Nat}

theorem exists_run (h : TableOf sections type items table) : ∃ run, (type, run) ∈ sections ∧
    run.map Prod.snd = items.map Prod.snd := by
  obtain ⟨placed, hmem, rfl, -⟩ := h
  exact ⟨_, hmem, by simp⟩

theorem mono (h : TableOf sections type items table) {sections' : List (ItemType × Run)} (hsub : sections ⊆ sections') :
    TableOf sections' type items table := by
  obtain ⟨placed, hmem, h⟩ := h
  exact ⟨placed, hsub hmem, h⟩

/-- The table finds the items in every file that the draft stands in. -/
theorem stands (h : TableOf sections type items table) {d : Draft} {base : Nat} (hd : d.Laid base sections)
    (hbase : 0 < base) {bytes : Bytes} (hin : d.out.In bytes) : Stands bytes items table := by
  obtain ⟨placed, hmem, rfl, rfl⟩ := h
  have hbetween : Run.Between base (placed.map Prod.snd) d.out.position := hd.between_of_mem hmem
  refine ⟨_, rfl, ?_, fun hne => ?_⟩
  · rw [Placed, List.forall₂_map_left_iff, List.forall₂_map_right_iff, List.forall₂_same]
    intro p hp
    have hp := List.mem_map_of_mem (f := Prod.snd) hp
    exact ⟨rfl, Nat.lt_of_lt_of_le hbase (hbetween.bounds p.2 hp).1, hd.holds bytes hin _ hmem p.2 hp⟩
  · have hlt := hbetween.pairwise_lt (hd.occupied _ hmem)
    rw [List.pairwise_map] at hlt ⊢
    exact hlt

end TableOf

/-- What a section adds to a draft. -/
structure Writes (type : ItemType) (items : List (κ × List UInt8)) (d d' : Draft) (table : Std.HashMap κ Nat)
    (placed : List (κ × Nat × List UInt8)) : Prop extends Placing type.alignment items d.out d'.out placed where
  table_eq : table = .ofList (placed.map fun p => (p.1, p.2.1))
  noted : d'.sections.toList = d.sections.toList ++ mapEntries [summary type (placed.map Prod.snd)]

theorem writeSection_writes {type : ItemType} {alignment : Nat} (halignment : alignment = type.alignment)
    {items : List (κ × List UInt8)} {d d' : Draft} {table : Std.HashMap κ Nat}
    (h : writeSection type alignment items d = .ok (table, d')) : ∃ placed, Writes type items d d' table placed := by
  have hpos : 0 < alignment := halignment ▸ type.alignment_pos
  obtain ⟨placed, hoffsets, hplaced⟩ := exists_placed hpos items (d.out.align alignment) #[]
  have halign : d.out.Extends (d.out.align alignment) := .align alignment
  rw [writeSection] at h
  cases h
  subst halignment
  refine ⟨placed, ⟨halign.trans hplaced.grows, hplaced.items_eq, ?_, hplaced.aligned, ?_, hplaced.holds⟩, ?_, ?_⟩
  · exact hplaced.between.mono halign.position_le (Nat.le_refl _)
  · intro p hp
    rw [hplaced.first p hp, Output.align_align hpos]
  · rw [hoffsets]
    rfl
  · refine (note_sections { d with out := {} } ..).trans ?_
    rw [← hplaced.items_eq, List.length_map]
    cases placed with
    | nil => rfl
    | cons p placed =>
      have hfirst := hplaced.first p rfl
      rw [Output.align_align hpos] at hfirst
      rw [← hfirst]
      simp [mapEntries, summary]

/-- A section of items that end at multiples of the alignment, behind what does so, is
written as if each item were aligned, and ends at such a multiple. -/
theorem writeSection_unaligned (type : ItemType) {alignment : Nat} {items : List (κ × List UInt8)}
    (hitems : ∀ item ∈ items, item.2.length % alignment = 0) {d : Draft} (hd : d.out.position % alignment = 0) :
    ∃ table d', writeSection type 1 items d = .ok (table, d') ∧
      writeSection type alignment items d = .ok (table, d') ∧ d'.out.position % alignment = 0 := by
  obtain ⟨hplace, hend⟩ := place_unaligned hitems hd #[]
  rw [writeSection, writeSection, Output.align_eq_self (Nat.mod_one _), Output.align_eq_self hd, hplace]
  exact ⟨_, _, rfl, rfl, hend⟩

namespace Writes

variable {type : ItemType} {items : List (κ × List UInt8)} {d d' : Draft} {table : Std.HashMap κ Nat}
variable {placed : List (κ × Nat × List UInt8)}

theorem tableOf (h : Writes type items d d' table placed) {sections : List (ItemType × Run)}
    (hmem : (type, placed.map Prod.snd) ∈ sections) : TableOf sections type items table :=
  ⟨placed, hmem, h.items_eq, h.table_eq⟩

/-- A section of items that take up room stands behind those before it. -/
theorem laid (h : Writes type items d d' table placed) (hne : ∀ item ∈ items, item.2 ≠ []) {base : Nat}
    {sections : List (ItemType × Run)} (hd : d.Laid base sections) :
    d'.Laid base (sections ++ [(type, placed.map Prod.snd)]) where
  between := by
    rw [List.flatMap_append, List.flatMap_singleton]
    exact hd.between.append h.between
  noted := by
    rw [h.noted, hd.noted, List.map_append, mapEntries_append]
    rfl
  aligned := by
    rw [List.forall_mem_append, List.forall_mem_singleton, List.forall_mem_map]
    exact ⟨hd.aligned, h.aligned⟩
  occupied := by
    rw [← h.items_eq, List.forall_mem_map] at hne
    rw [List.forall_mem_append, List.forall_mem_singleton, List.forall_mem_map]
    exact ⟨hd.occupied, hne⟩
  holds := by
    intro bytes hin
    rw [List.forall_mem_append, List.forall_mem_singleton, List.forall_mem_map]
    exact ⟨hd.holds bytes (hin.of_extends h.grows), h.holds bytes hin⟩

end Writes

/-! ## Drafts step by step -/

variable {α : Type} {type : ItemType} {alignment : Nat} {d : Draft}

omit [BEq κ] [Hashable κ] in
theorem Write.bind_eq_ok {β : Type} {w : Write α} {f : α → Write β} {r : β × Draft} (h : (w >>= f) d = .ok r) :
    ∃ a d', w d = .ok (a, d') ∧ f a d' = .ok r := by
  obtain ⟨⟨a, d'⟩, ha, h⟩ := Result.bind_eq_ok h
  exact ⟨a, d', ha, h⟩

omit [BEq κ] [Hashable κ] in
theorem Write.discard_eq_ok {w : Write α} {d' : Draft} {u : Unit} (h : discard w d = .ok (u, d')) :
    ∃ a, w d = .ok (a, d') := by
  obtain ⟨⟨a, d''⟩, ha, h⟩ := Result.bind_eq_ok h
  cases h
  exact ⟨a, ha⟩

/-- Writing a section and going on. -/
theorem Write.section_eq_ok (halignment : alignment = type.alignment) {items : List (κ × List UInt8)}
    {next : Std.HashMap κ Nat → Write α} {r : α × Draft}
    (h : (do let table ← writeSection type alignment items; next table : Write α) d = .ok r) :
    ∃ table d' placed, Writes type items d d' table placed ∧ next table d' = .ok r := by
  obtain ⟨table, d', hsection, h⟩ := Write.bind_eq_ok h
  obtain ⟨placed, hwrites⟩ := writeSection_writes halignment hsection
  exact ⟨table, d', placed, hwrites, h⟩

/-- Writing a section of items that end at multiples of the alignment and going on. -/
theorem Write.unaligned_eq_ok (alignment : Nat) (halignment : alignment = type.alignment)
    {items : List (κ × List UInt8)} (hitems : ∀ item ∈ items, item.2.length % alignment = 0)
    (hd : d.out.position % alignment = 0) {next : Std.HashMap κ Nat → Write α} {r : α × Draft}
    (h : (do let table ← writeSection type 1 items; next table : Write α) d = .ok r) :
    ∃ table d' placed, Writes type items d d' table placed ∧ d'.out.position % alignment = 0 ∧
      next table d' = .ok r := by
  obtain ⟨table, d', hwrite, haligned, hend⟩ := writeSection_unaligned type hitems hd
  obtain ⟨placed, hwrites⟩ := writeSection_writes halignment haligned
  refine ⟨table, d', placed, hwrites, hend, ?_⟩
  obtain ⟨table', d'', hsection, h⟩ := Write.bind_eq_ok h
  cases hwrite.symm.trans hsection
  exact h

omit [BEq κ] [Hashable κ] in
/-- Adding zeros and going on. -/
theorem Write.align_eq_ok (hpos : 0 < alignment) {next : Write α} {r : α × Draft}
    (h : (do Draft.align alignment; next : Write α) d = .ok r) :
    ∃ d' : Draft, d.out.Extends d'.out ∧ d'.sections = d.sections ∧ d'.out.position % alignment = 0 ∧
      next d' = .ok r :=
  ⟨{ d with out := d.out.align alignment }, .align alignment, rfl, Output.align_position_mod hpos, h⟩

omit [BEq κ] [Hashable κ] in
/-- Making items and going on. -/
theorem Write.lift_eq_ok {made : Result (List (κ × List UInt8))} {next : List (κ × List UInt8) → Write α}
    {r : α × Draft} (h : (do let items ← liftM made; next items : Write α) d = .ok r) :
    ∃ items, made = .ok items ∧ next items d = .ok r := by
  obtain ⟨items, d', hmade, h⟩ := Write.bind_eq_ok h
  obtain ⟨items', hitems, hmade⟩ := Result.bind_eq_ok hmade
  cases hmade
  exact ⟨items, hitems, h⟩

/-- Making items, writing a section of them and going on. -/
theorem Write.made_eq_ok (halignment : alignment = type.alignment) {made : Result (List (κ × List UInt8))}
    {next : Std.HashMap κ Nat → Write α} {r : α × Draft}
    (h : (do let items ← liftM made; let table ← writeSection type alignment items; next table : Write α) d = .ok r) :
    ∃ items table d' placed, made = .ok items ∧ Writes type items d d' table placed ∧ next table d' = .ok r := by
  obtain ⟨items, hitems, h⟩ := Write.lift_eq_ok h
  obtain ⟨table, d', placed, hwrites, h⟩ := Write.section_eq_ok halignment h
  exact ⟨items, table, d', placed, hitems, hwrites, h⟩

end Draft

end Dalvik
