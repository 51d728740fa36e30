import Dalvik.Image.Annotations
import Dalvik.Proofs.Numbers
import Dalvik.Proofs.Outcome
import Dalvik.Proofs.Taking

/-!
# Tables that are searched by bisection

The tables of an annotations directory are lists of entries of the same size
(`StoredDirectory.exists_table`), and a search only looks at the entries of its table
(`StoredDirectory.search_step`). So it goes by them alone (`StoredDirectory.search_local`), and
it ends with nothing or with the offset of an entry with the index
(`StoredDirectory.search_cases`). If the indices ascend it misses no entry
(`StoredDirectory.search_between`). Whatever is opened as a directory has three such
tables, one behind the other (`StoredDirectory.exists_tables`).
-/

namespace Dalvik

namespace StoredDirectory

open DirectoryItem (writeEntry)

/-! ## Tables in the bytes -/

theorem length_writeEntry (entry : UInt32 × UInt32) : (writeEntry entry).length = entrySize := by
  simp [writeEntry, entrySize]

theorem length_table (table : List (UInt32 × UInt32)) : (table.flatMap writeEntry).length = table.length * entrySize :=
  length_flatMap_of_forall fun entry _ => length_writeEntry entry

/-- Four bytes are a number. -/
theorem exists_uint {bytes : Bytes} {offset : Nat} (hle : offset + 4 ≤ bytes.size) :
    ∃ v, bytes.Holds offset (Write.uint v) := by
  obtain ⟨form, hform⟩ : ∃ form, (bytes.extract offset (offset + 4)).toList = form := ⟨_, rfl⟩
  have hlength : form.length = 4 := by
    rw [← hform, Array.length_toList, Array.size_extract]
    omega
  have hlt : LittleEndian.decode form < byteBound 4 := hlength ▸ LittleEndian.decode_lt form
  refine ⟨UInt32.ofNat (LittleEndian.decode form), ?_⟩
  have hwrite : Write.uint (UInt32.ofNat (LittleEndian.decode form)) = form := by
    rw [Write.uint, UInt32.toNat_ofNat_of_lt' hlt, ← hlength, LittleEndian.encode_decode]
  rw [hwrite, ← hform]
  refine ⟨bytes.toList.take offset, bytes.toList.drop (offset + 4), ?_, ?_⟩
  · rw [Array.toList_extract, List.extract_eq_take_drop, Nat.add_sub_cancel_left, List.append_assoc,
      ← List.drop_drop, List.take_append_drop, List.take_append_drop]
  · rw [List.length_take, Array.length_toList]
    omega

/-- Whatever stands between an offset and the end is a table, as far as its entries go. -/
theorem exists_table {bytes : Bytes} (count : Nat) {start : Nat} (hle : start + count * entrySize ≤ bytes.size) :
    ∃ table : List (UInt32 × UInt32), table.length = count ∧ bytes.Holds start (table.flatMap writeEntry) := by
  induction count generalizing start with
  | zero => exact ⟨[], rfl, .nil (by omega)⟩
  | succ count ih =>
    rw [Nat.succ_mul, entrySize] at hle
    obtain ⟨key, hkey⟩ := exists_uint (show start + 4 ≤ bytes.size by omega)
    obtain ⟨offset, hoffset⟩ := exists_uint (show start + 4 + 4 ≤ bytes.size by omega)
    obtain ⟨table, hlength, htable⟩ := ih (show start + 8 + count * entrySize ≤ bytes.size by
      rw [entrySize]
      omega)
    refine ⟨(key, offset) :: table, congrArg (· + 1) hlength, ?_⟩
    rw [List.flatMap_cons, Bytes.Holds.append_iff, writeEntry, Bytes.Holds.append_iff]
    refine ⟨⟨hkey, by rwa [Write.length_uint]⟩, ?_⟩
    rwa [List.length_append, Write.length_uint, Write.length_uint]

/-! ## Searches -/

/-- What a search yields where it hits an entry: the offset there, which has to be small. -/
def offsetAt (start place : Nat) (offset : UInt32) : Result Nat :=
  if offset.toNat < extentBound then .ok offset.toNat else .fail (.wordOutOfRange (start + place * entrySize + 4))

theorem offsetAt_eq {offset : UInt32} (h : offset.toNat < extentBound) (start place : Nat) :
    offsetAt start place offset = .ok offset.toNat :=
  if_pos h

/-- The offset of an entry is read if it is small. -/
theorem readAt_offset {image : Image} {start place : Nat} {entry : UInt32 × UInt32}
    (hheld : image.bytes.Holds (start + place * entrySize) (writeEntry entry)) :
    (do return (← image.readAt Read.smallUint (start + place * entrySize + 4)).toNat) = offsetAt start place entry.2 := by
  have hvalue : image.bytes.Holds (start + place * entrySize + 4) (Write.uint entry.2) := hheld.right
  rw [offsetAt]
  split
  · rw [Image.readAt, (Read.yields_smallUint ‹_›).at? hvalue]
    rfl
  · have hle := hvalue.le_size
    rw [Image.readAt, Read.at?_eq _ _ _ (by omega), Read.smallUint, Read.on_bind, Read.on_tell]
    dsimp only
    rw [(Read.yields_uint entry.2).on_bind _ hvalue, if_pos (Nat.not_lt.mp ‹_›)]
    rfl

variable {start : Nat} {table : List (UInt32 × UInt32)} (index : UInt32)

/-- A step of a search looks at the entry in the middle. -/
theorem search_step {image : Image} (hheld : image.bytes.Holds start (table.flatMap writeEntry)) {low high : Nat}
    (hlt : low < high) {entry : UInt32 × UInt32} (hentry : table[low + (high - low) / 2]? = some entry) :
    search image start index low high =
      if entry.1 = index then offsetAt start (low + (high - low) / 2) entry.2
      else if entry.1 < index then search image start index (low + (high - low) / 2 + 1) high
      else search image start index low (low + (high - low) / 2) := by
  have hbytes := hheld.of_flatMap (fun entry _ => length_writeEntry entry) hentry
  have hkey : image.readAt Read.uint (start + (low + (high - low) / 2) * entrySize) = .ok entry.1 :=
    (Read.yields_uint entry.1).at? hbytes.left
  rw [search, if_pos hlt]
  dsimp only
  rw [hkey, Result.ok_bind]
  split
  · exact readAt_offset hbytes
  · rfl

theorem search_empty (image : Image) (start : Nat) {low high : Nat} (hge : ¬ low < high) :
    search image start index low high = .ok 0 := by
  rw [search, if_neg hge]
  rfl

/-- A search goes by its table alone: wherever the same table stands at the same place, it
ends alike. -/
theorem search_local {image other : Image} (hheld : image.bytes.Holds start (table.flatMap writeEntry))
    (hother : other.bytes.Holds start (table.flatMap writeEntry)) {low high : Nat} (hhigh : high ≤ table.length) :
    search other start index low high = search image start index low high := by
  induction hsize : high - low using Nat.strong_induction_on generalizing low high with
  | _ size ih =>
    by_cases hlt : low < high
    · obtain ⟨entry, hentry⟩ : ∃ entry, table[low + (high - low) / 2]? = some entry :=
        ⟨_, List.getElem?_eq_getElem (show low + (high - low) / 2 < table.length by omega)⟩
      rw [search_step index hheld hlt hentry, search_step index hother hlt hentry]
      split
      · rfl
      · split
        · exact ih _ (by omega) hhigh rfl
        · exact ih _ (by omega) (by omega) rfl
    · rw [search_empty index other start hlt, search_empty index image start hlt]

/-- A search ends with nothing, or at an entry with the index. -/
theorem search_cases {image : Image} (hheld : image.bytes.Holds start (table.flatMap writeEntry)) {low high : Nat}
    (hhigh : high ≤ table.length) : search image start index low high = .ok 0 ∨
      ∃ place offset, table[place]? = some (index, offset) ∧
        search image start index low high = offsetAt start place offset := by
  induction hsize : high - low using Nat.strong_induction_on generalizing low high with
  | _ size ih =>
    by_cases hlt : low < high
    · obtain ⟨entry, hentry⟩ : ∃ entry, table[low + (high - low) / 2]? = some entry :=
        ⟨_, List.getElem?_eq_getElem (show low + (high - low) / 2 < table.length by omega)⟩
      rw [search_step index hheld hlt hentry]
      split
      · rename_i heq
        exact .inr ⟨_, entry.2, heq ▸ hentry, rfl⟩
      · split
        · exact ih _ (by omega) hhigh rfl
        · exact ih _ (by omega) (by omega) rfl
    · exact .inl (search_empty index image start hlt)

variable {index}

/-! ## Tables whose indices ascend -/

/-- The indices of a table ascend. -/
def Ascends (table : List (UInt32 × UInt32)) : Prop :=
  table.Pairwise fun a b => a.1.toNat < b.1.toNat

theorem Ascends.lt_of_lt (h : Ascends table) {i j : Nat} {a b : UInt32 × UInt32} (ha : table[i]? = some a)
    (hb : table[j]? = some b) (hlt : i < j) : a.1.toNat < b.1.toNat := by
  obtain ⟨hi, rfl⟩ := List.getElem?_eq_some_iff.mp ha
  obtain ⟨hj, rfl⟩ := List.getElem?_eq_some_iff.mp hb
  exact List.pairwise_iff_getElem.mp h i j hi hj hlt

/-- An entry with the index lies on the side of another entry that its index says. -/
theorem Ascends.side (h : Ascends table) {middle : Nat} {entry : UInt32 × UInt32} (hentry : table[middle]? = some entry)
    (hne : entry.1 ≠ index) {i : Nat} {offset : UInt32} (hi : table[i]? = some (index, offset)) :
    i ≠ middle ∧ (i < middle ↔ ¬ entry.1 < index) := by
  have hindex : entry.1.toNat ≠ index.toNat := fun h => hne (UInt32.toNat_inj.mp h)
  rw [UInt32.lt_iff_toNat_lt]
  rcases Nat.lt_trichotomy i middle with hlt | rfl | hgt
  · have hless : index.toNat < entry.1.toNat := h.lt_of_lt hi hentry hlt
    exact ⟨by omega, iff_of_true hlt (by omega)⟩
  · rw [hentry] at hi
    exact absurd (congrArg Prod.fst (Option.some.inj hi)) hne
  · have hless : entry.1.toNat < index.toNat := h.lt_of_lt hentry hi hgt
    exact ⟨by omega, iff_of_false (by omega) (by omega)⟩

variable {image : Image} (htable : Ascends table) (hheld : image.bytes.Holds start (table.flatMap writeEntry))

include htable hheld

/-- The search ends at the entry with the index, if the entries outside the bounds have other
indices. -/
theorem search_between {low high place : Nat} {offset : UInt32} (hhigh : high ≤ table.length)
    (hentry : table[place]? = some (index, offset)) (hlow : low ≤ place) (hplace : place < high) :
    search image start index low high = offsetAt start place offset := by
  -- In whichever half the search goes on, the entry stays between its bounds.
  induction hsize : high - low using Nat.strong_induction_on generalizing low high with
  | _ size ih =>
    obtain ⟨entry, hmiddle⟩ : ∃ entry, table[low + (high - low) / 2]? = some entry :=
      ⟨_, List.getElem?_eq_getElem (show low + (high - low) / 2 < table.length by omega)⟩
    rw [search_step index hheld (by omega) hmiddle]
    by_cases heq : entry.1 = index
    · have hsame : low + (high - low) / 2 = place := by
        rcases Nat.lt_trichotomy (low + (high - low) / 2) place with hlt | hsame | hgt
        · have hless := htable.lt_of_lt hmiddle hentry hlt
          exact absurd hless (heq ▸ Nat.lt_irrefl _)
        · exact hsame
        · have hless := htable.lt_of_lt hentry hmiddle hgt
          exact absurd hless (heq ▸ Nat.lt_irrefl _)
      rw [if_pos heq, hsame]
      rw [hsame, hentry] at hmiddle
      rw [← Option.some.inj hmiddle]
    · obtain ⟨hne, hside⟩ := htable.side hmiddle heq hentry
      rw [if_neg heq]
      split
      · have habove : ¬ place < low + (high - low) / 2 := fun hbelow => hside.mp hbelow ‹_›
        exact ih _ (by omega) hhigh (by omega) hplace rfl
      · have hbelow : place < low + (high - low) / 2 := hside.mpr ‹_›
        exact ih _ (by omega) (by omega) hlow hbelow rfl

/-- An index that is in the table leads to its offset. -/
theorem search_present {place : Nat} {offset : UInt32} (hentry : table[place]? = some (index, offset)) :
    search image start index 0 table.length = offsetAt start place offset :=
  search_between htable hheld (Nat.le_refl _) hentry (Nat.zero_le _) (List.getElem?_eq_some_iff.mp hentry).1

omit htable in
/-- An index that is not in the table leads to nothing, whatever the order of the table. -/
theorem search_missing (hmissing : index ∉ table.map Prod.fst) : search image start index 0 table.length = .ok 0 := by
  rcases search_cases index hheld (Nat.le_refl _) with hzero | ⟨place, offset, hentry, -⟩
  · exact hzero
  · exact absurd (List.mem_map_of_mem (List.mem_of_getElem? hentry)) hmissing

omit htable hheld

/-! ## The tables of a directory -/

/-- The tables of a directory that has been found end inside the image. -/
theorem cases_of_at? {offset : Nat} {d : StoredDirectory} (h : at? image offset = .ok d) :
    offset = 0 ∧ d = { image, offset } ∨ offset ≠ 0 ∧ d.image = image ∧ d.offset = offset ∧
      d.tableStart (d.fieldCount + d.methodCount + d.parameterCount) ≤ image.bytes.size := by
  rw [at?] at h
  split at h
  · cases h
    exact .inl ⟨‹_›, rfl⟩
  · refine .inr ⟨‹_›, ?_⟩
    obtain ⟨hle, last, hon⟩ := Read.exists_of_at? h
    obtain ⟨_, first, hskip, hon⟩ := Read.on_bind_eq_ok hon
    obtain ⟨fields, second, hfields, hon⟩ := Read.on_bind_eq_ok hon
    obtain ⟨methods, third, hmethods, hon⟩ := Read.on_bind_eq_ok hon
    obtain ⟨parameters, fourth, hparameters, hon⟩ := Read.on_bind_eq_ok hon
    obtain ⟨_, rfl, hle, rfl⟩ := Read.takes_skip 4 _ _ _ _ hle hskip
    obtain ⟨_, rfl, hle, rfl⟩ := Read.takes_smallUint _ _ _ _ hle hfields
    obtain ⟨_, rfl, hle, rfl⟩ := Read.takes_smallUint _ _ _ _ hle hmethods
    obtain ⟨_, rfl, hle, rfl⟩ := Read.takes_smallUint _ _ _ _ hle hparameters
    obtain ⟨left, _, hleft, hon⟩ := Read.on_bind_eq_ok hon
    rw [Read.on_remaining] at hleft
    cases hleft
    dsimp only at hon
    split at hon
    · cases hon
    · rename_i hentries
      cases hon
      refine ⟨rfl, rfl, ?_⟩
      simp only [tableStart, headSize, entrySize] at *
      omega

/-- How a table is looked up in: the table begins at `start` and is the only one that is read. -/
structure Searches (d : StoredDirectory) (start : Nat) (lookup : StoredDirectory → UInt32 → Result Nat)
    (table : List (UInt32 × UInt32)) : Prop where
  holds : table ≠ [] → d.image.bytes.Holds start (table.flatMap writeEntry)
  /-- A lookup ends with nothing or at an entry with the index. It fails only if the offset there is too large. -/
  ends : ∀ index, lookup d index = .ok 0 ∨
    ∃ place offset, table[place]? = some (index, offset) ∧ lookup d index = offsetAt start place offset
  /-- A lookup reads its own table only: it ends alike in whatever image that table is. -/
  own : ∀ other : Image, (table ≠ [] → other.bytes.Holds start (table.flatMap writeEntry)) →
    ∀ index, lookup { d with image := other } index = lookup d index
  /-- If the indices ascend, an index that is there leads to its offset. -/
  present : Ascends table → ∀ place index offset, table[place]? = some (index, offset) →
    lookup d index = offsetAt start place offset
  /-- An index that is not there leads to nothing. -/
  missing : ∀ index, index ∉ table.map Prod.fst → lookup d index = .ok 0

/-- What stands behind the head of a directory. -/
structure Tables (d : StoredDirectory) (fields methods parameters : List (UInt32 × UInt32)) : Prop where
  fieldCount : fields.length = d.fieldCount
  methodCount : methods.length = d.methodCount
  parameterCount : parameters.length = d.parameterCount
  fields : d.Searches (d.tableStart 0) fieldOffset fields
  methods : d.Searches (d.tableStart d.fieldCount) methodOffset methods
  parameters : d.Searches (d.tableStart (d.fieldCount + d.methodCount)) parameterOffset parameters

/-- A search for an index is a lookup in its table, if that table is there. -/
theorem searches_of_holds {d : StoredDirectory} {lookup : StoredDirectory → UInt32 → Result Nat}
    (hlookup : ∀ (image : Image) index, lookup { d with image } index = search image start index 0 table.length)
    (hheld : table ≠ [] → d.image.bytes.Holds start (table.flatMap writeEntry)) : d.Searches start lookup table := by
  have hsame : ∀ index, lookup d index = search d.image start index 0 table.length := hlookup d.image
  rcases List.eq_nil_or_concat table with rfl | ⟨_, _, hfilled⟩
  · have hnothing : ∀ (image : Image) index, lookup { d with image } index = .ok 0 := fun image index =>
      (hlookup image index).trans (search_empty index image start (Nat.lt_irrefl 0))
    exact {
      holds := hheld
      ends := fun index => .inl (hnothing d.image index)
      own := fun other _ index => (hnothing other index).trans (hnothing d.image index).symm
      present := fun _ place index offset hentry => by cases hentry
      missing := fun index _ => hnothing d.image index }
  · have hne : table ≠ [] := by simp [hfilled]
    exact {
      holds := hheld
      ends := fun index => hsame index ▸ search_cases index (hheld hne) (Nat.le_refl _)
      own := fun other hother index => by
        rw [hlookup, hsame, search_local index (hheld hne) (hother hne) (Nat.le_refl _)]
      present := fun htable place index offset hentry => (hsame index).trans (search_present htable (hheld hne) hentry)
      missing := fun index hmissing => (hsame index).trans (search_missing (hheld hne) hmissing) }

/-- A directory that has been found has its three tables, one behind the other. -/
theorem exists_tables {offset : Nat} {d : StoredDirectory} (h : at? image offset = .ok d) :
    ∃ fields methods parameters, d.Tables fields methods parameters := by
  rcases cases_of_at? h with ⟨-, rfl⟩ | ⟨-, rfl, -, hle⟩
  · have hempty (start : Nat) {lookup : StoredDirectory → UInt32 → Result Nat}
        (hlookup : ∀ (image : Image) index, lookup { image, offset } index = search image start index 0 0) :
        Searches { image, offset } start lookup [] :=
      searches_of_holds hlookup fun hne => absurd rfl hne
    exact ⟨[], [], [], rfl, rfl, rfl, hempty _ fun _ _ => rfl, hempty _ fun _ _ => rfl, hempty _ fun _ _ => rfl⟩
  · have hexists (preceding count : Nat)
        (hentries : preceding + count ≤ d.fieldCount + d.methodCount + d.parameterCount) :
        ∃ table : List (UInt32 × UInt32), table.length = count ∧
          d.image.bytes.Holds (d.tableStart preceding) (table.flatMap writeEntry) := by
      refine exists_table count (Nat.le_trans ?_ hle)
      simp only [tableStart, entrySize]
      omega
    obtain ⟨fields, hfieldCount, hfields⟩ := hexists 0 d.fieldCount (by omega)
    obtain ⟨methods, hmethodCount, hmethods⟩ := hexists d.fieldCount d.methodCount (by omega)
    obtain ⟨parameters, hparameterCount, hparameters⟩ := hexists (d.fieldCount + d.methodCount) d.parameterCount (by omega)
    exact ⟨fields, methods, parameters, hfieldCount, hmethodCount, hparameterCount,
      searches_of_holds (fun _ _ => hfieldCount ▸ rfl) fun _ => hfields,
      searches_of_holds (fun _ _ => hmethodCount ▸ rfl) fun _ => hmethods,
      searches_of_holds (fun _ _ => hparameterCount ▸ rfl) fun _ => hparameters⟩

end StoredDirectory

end Dalvik
