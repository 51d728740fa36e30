import Mathlib.Data.List.Permutation
import Mathlib.Data.Set.Function
import Mathlib.Order.Interval.Set.Defs
import Dalvik.Arena
import Dalvik.Proofs.Outcome
import Dalvik.Proofs.Pool

/-!
# Keys, handles and indices of an arena

The keys of an arena are distinct, and each has its place as its handle, in 32 bits
(`Arena.WellFormed`). Sealing ranks the keys by their sort keys. As long as every place
has a handle of its own, the ranks are those that a pool has (`Ranks.sortedIds_eq`,
`Ranks.indicesOf_map`).
-/

namespace Dalvik

/-! ## Sorting keeps the order of equal keys -/

namespace Ranking

/-- An id comes before another by its sort key, or among equal sort keys by itself. -/
def Before {σ : Type} (cmp : σ → σ → Ordering) (a b : σ × Nat) : Prop :=
  cmp a.1 b.1 = .lt ∨ cmp a.1 b.1 = .eq ∧ a.2 < b.2

variable {σ : Type} (cmp : σ → σ → Ordering) [Std.TransCmp cmp]

theorem Before.asymm {a b : σ × Nat} (h : Before cmp a b) : ¬Before cmp b a := by
  have hswap := @Std.OrientedCmp.eq_swap _ cmp _ a.1 b.1
  rintro (hlt | ⟨heq, hid⟩)
  · rcases h with h | ⟨h, -⟩ <;> rw [h, hlt] at hswap <;> cases hswap
  · rcases h with h | ⟨-, hid'⟩
    · rw [h, heq] at hswap
      cases hswap
    · exact absurd hid (Nat.lt_asymm hid')

/-- The sort keys with their ids, sorted. -/
theorem sorted_pairwise_before (sortKeys : List σ) :
    (sortKeys.zipIdx.mergeSort fun a b => (cmp a.1 b.1).isLE).Pairwise (Before cmp) := by
  have htrans : ∀ a b c : σ × Nat, (cmp a.1 b.1).isLE → (cmp b.1 c.1).isLE → (cmp a.1 c.1).isLE :=
    fun _ _ _ => Std.TransCmp.isLE_trans
  have htotal : ∀ a b : σ × Nat, (cmp a.1 b.1).isLE || (cmp b.1 a.1).isLE := fun a b => by
    rw [@Std.OrientedCmp.eq_swap _ cmp]
    cases cmp b.1 a.1 <;> rfl
  -- Sorting is stable: it sorts by the places in the list too, and these are the ids.
  have hstable := List.pairwise_mergeSort (List.zipIdxLE_trans htrans) (List.zipIdxLE_total htotal) sortKeys.zipIdx.zipIdx
  have hnodup := ((List.mergeSort_perm sortKeys.zipIdx.zipIdx (List.zipIdxLE fun a b => (cmp a.1 b.1).isLE)).map
    Prod.snd).nodup_iff.mpr (by simpa using List.nodup_range')
  rw [← List.mergeSort_zipIdx, List.pairwise_map]
  refine (hstable.and (List.pairwise_map.mp hnodup)).imp_of_mem fun {a b} ha hb ⟨hle, hne⟩ => ?_
  rw [List.mem_mergeSort, List.mem_zipIdx_iff_getElem?, List.getElem?_zipIdx] at ha hb
  obtain ⟨sa, -, ha⟩ := Option.map_eq_some_iff.mp ha
  obtain ⟨sb, -, hb⟩ := Option.map_eq_some_iff.mp hb
  rw [Nat.zero_add] at ha hb
  rw [List.zipIdxLE, ← ha, ← hb] at hle
  rw [Before, ← ha, ← hb]
  have hswap := @Std.OrientedCmp.eq_swap _ cmp _ sb sa
  dsimp only at hle ⊢
  rw [hswap] at hle
  cases hcmp : cmp sa sb with
  | lt => exact .inl rfl
  | eq =>
    rw [hcmp] at hle
    exact .inr ⟨rfl, Nat.lt_of_le_of_ne (by simpa using hle) hne⟩
  | gt =>
    rw [hcmp] at hle
    simp at hle

/-- The order of sort keys, and of ids among equal ones. -/
def compareNumbered (a b : σ × Nat) : Ordering :=
  (cmp a.1 b.1).then (compare a.2 b.2)

instance : Std.TransCmp (compareNumbered cmp) :=
  have := transCmp_on (α := σ × Nat) Prod.fst cmp
  have := transCmp_on (α := σ × Nat) Prod.snd (compare : Nat → Nat → Ordering)
  inferInstanceAs (Std.TransCmp (compareLex (fun a b : σ × Nat => cmp a.1 b.1) fun a b => compare a.2 b.2))

/-- Sorting by sort keys alone keeps equal ones in the order of their ids. -/
theorem sortedIds_eq_mergeSort (sortKeys : List σ) :
    sortedIds cmp sortKeys = (sortKeys.zipIdx.mergeSort fun a b => (compareNumbered cmp a b).isLE).map (·.2) := by
  have hnodup : (sortKeys.zipIdx.map Prod.snd).Nodup := by simpa using List.nodup_range'
  have hnodup := ((List.mergeSort_perm sortKeys.zipIdx fun a b => (compareNumbered cmp a b).isLE).map
    Prod.snd).nodup_iff.mpr hnodup
  have hsorted : (sortKeys.zipIdx.mergeSort fun a b => (compareNumbered cmp a b).isLE).Pairwise (Before cmp) := by
    refine ((mergeSort_pairwise_isLE (compareNumbered cmp) _).and (List.pairwise_map.mp hnodup)).imp
      fun {a b} ⟨hle, hne⟩ => ?_
    rw [compareNumbered] at hle
    rw [Before]
    cases hcmp : cmp a.1 b.1 with
    | lt => exact .inl rfl
    | eq =>
      rw [hcmp, Ordering.eq_then, Nat.isLE_compare] at hle
      exact .inr ⟨rfl, Nat.lt_of_le_of_ne hle hne⟩
    | gt =>
      rw [hcmp] at hle
      cases hle
  have hperm := (List.mergeSort_perm sortKeys.zipIdx fun a b => (cmp a.1 b.1).isLE).trans
    (List.mergeSort_perm sortKeys.zipIdx fun a b => (compareNumbered cmp a b).isLE).symm
  rw [sortedIds, hperm.eq_of_pairwise (fun a b _ _ hab hba => absurd hba (hab.asymm cmp))
    (sorted_pairwise_before cmp sortKeys) hsorted]

section places

variable {sortKeys : List σ}

omit [Std.TransCmp cmp] in
theorem mem_sortedIds {id : Nat} : id ∈ sortedIds cmp sortKeys ↔ id < sortKeys.length := by
  rw [(sortedIds_perm cmp sortKeys).mem_iff, List.mem_range]

omit [Std.TransCmp cmp] in
theorem length_sortedIds : (sortedIds cmp sortKeys).length = sortKeys.length :=
  (sortedIds_perm cmp sortKeys).length_eq.trans List.length_range

omit [Std.TransCmp cmp] in
theorem nodup_sortedIds : (sortedIds cmp sortKeys).Nodup :=
  (sortedIds_perm cmp sortKeys).nodup_iff.mpr List.nodup_range

omit [Std.TransCmp cmp] in
/-- The place of an id is its own. -/
theorem sortedIds_getElem?_idxOf {id : Nat} (h : id < sortKeys.length) :
    (sortedIds cmp sortKeys)[(sortedIds cmp sortKeys).idxOf id]? = some id :=
  List.getElem?_idxOf ((mem_sortedIds cmp).mpr h)

omit [Std.TransCmp cmp] in
/-- The places are the numbers below the number of ids, each that of one id. -/
theorem bijOn_idxOf_sortedIds : Set.BijOn (fun id => (sortedIds cmp sortKeys).idxOf id) (Set.Iio sortKeys.length)
    (Set.Iio sortKeys.length) := by
  refine ⟨fun id hid => ?_, fun id hid id' hid' heq => ?_, fun place hplace => ?_⟩
  · have := List.idxOf_lt_length_of_mem ((mem_sortedIds cmp).mpr hid)
    rwa [length_sortedIds] at this
  · have hat := sortedIds_getElem?_idxOf cmp hid
    have hat' := sortedIds_getElem?_idxOf cmp hid'
    dsimp only at heq
    rw [heq, hat'] at hat
    exact (Option.some.inj hat).symm
  · have hlt : place < (sortedIds cmp sortKeys).length := (length_sortedIds cmp).symm ▸ hplace
    exact ⟨(sortedIds cmp sortKeys)[place], (mem_sortedIds cmp).mp (List.getElem_mem hlt),
      (nodup_sortedIds cmp).idxOf_getElem place hlt⟩

/-- The places are in the order of the sort keys and the ids. -/
theorem idxOf_sortedIds_lt_iff {id id' : Nat} {s s' : σ} (hs : sortKeys[id]? = some s) (hs' : sortKeys[id']? = some s') :
    (sortedIds cmp sortKeys).idxOf id < (sortedIds cmp sortKeys).idxOf id' ↔ Before cmp (s, id) (s', id') := by
  have hpair {id : Nat} {s : σ} (hs : sortKeys[id]? = some s) :
      (sortKeys.zipIdx.mergeSort fun a b => (cmp a.1 b.1).isLE)[(sortedIds cmp sortKeys).idxOf id]? = some (s, id) := by
    have hat := sortedIds_getElem?_idxOf cmp (List.getElem?_eq_some_iff.mp hs).1
    rw [sortedIds, List.getElem?_map, ← sortedIds] at hat
    obtain ⟨⟨t, id'⟩, hget, rfl⟩ := Option.map_eq_some_iff.mp hat
    have hmem := List.mem_of_getElem? hget
    rw [List.mem_mergeSort, List.mem_zipIdx_iff_getElem?] at hmem
    rw [hget, Option.some.inj (hs.symm.trans hmem)]
  have hbefore {id id' : Nat} {s s' : σ} (hs : sortKeys[id]? = some s) (hs' : sortKeys[id']? = some s')
      (hlt : (sortedIds cmp sortKeys).idxOf id < (sortedIds cmp sortKeys).idxOf id') : Before cmp (s, id) (s', id') := by
    obtain ⟨hi, heq⟩ := List.getElem?_eq_some_iff.mp (hpair hs)
    obtain ⟨hj, heq'⟩ := List.getElem?_eq_some_iff.mp (hpair hs')
    have := List.pairwise_iff_getElem.mp (sorted_pairwise_before cmp sortKeys) _ _ hi hj hlt
    rwa [heq, heq'] at this
  refine ⟨hbefore hs hs', fun h => ?_⟩
  by_contra hge
  rcases Nat.eq_or_lt_of_le (Nat.le_of_not_lt hge) with heq | hlt
  · have hsame := hpair hs'
    rw [heq, hpair hs] at hsame
    cases hsame
    exact h.asymm cmp h
  · exact h.asymm cmp (hbefore hs' hs hlt)

end places

end Ranking

namespace Arena

/-! ## Ranks in 32 bits -/

namespace Ranks

variable {σ : Type} (cmp : σ → σ → Ordering)

theorem compare_ofNat {i j : Nat} (hi : i < UInt32.size) (hj : j < UInt32.size) :
    compare (UInt32.ofNat i) (UInt32.ofNat j) = compare i j := by
  rw [UInt32.compare_eq_toNat_compare_toNat, UInt32.toNat_ofNat_of_lt' hi, UInt32.toNat_ofNat_of_lt' hj]

/-- As long as all numbers fit, what is sorted is what a pool sorts. -/
theorem sortedIds_eq [Std.TransCmp cmp] {sortKeys : List σ} (h : sortKeys.length ≤ UInt32.size) :
    sortedIds cmp sortKeys = (Ranking.sortedIds cmp sortKeys).map UInt32.ofNat := by
  have hlt : ∀ a ∈ sortKeys.zipIdx, a.2 < UInt32.size := fun a ha =>
    Nat.lt_of_lt_of_le (List.getElem?_eq_some_iff.mp (List.mem_zipIdx_iff_getElem?.mp ha)).1 h
  have hcompare : ∀ a ∈ sortKeys.zipIdx, ∀ b ∈ sortKeys.zipIdx, (Ranking.compareNumbered cmp a b).isLE =
      ((cmp a.1 b.1).then (compare (UInt32.ofNat a.2) (UInt32.ofNat b.2))).isLE := fun a ha b hb => by
    rw [compare_ofNat (hlt a ha) (hlt b hb), Ranking.compareNumbered]
  have hmap := List.map_mergeSort (s := fun a b : σ × UInt32 => ((cmp a.1 b.1).then (compare a.2 b.2)).isLE)
    (f := fun a : σ × Nat => (a.1, UInt32.ofNat a.2)) hcompare
  rw [sortedIds, Ranking.sortedIds_eq_mergeSort, ← hmap, List.map_map, List.map_map]
  rfl

theorem toNat_map_ofNat {ids : List Nat} (h : ∀ id ∈ ids, id < UInt32.size) :
    (ids.map UInt32.ofNat).map UInt32.toNat = ids := by
  rw [List.map_map]
  conv_rhs => rw [← List.map_id ids]
  exact List.map_congr_left fun id hid => UInt32.toNat_ofNat_of_lt' (h id hid)

/-- As long as all numbers fit, the indices are those of a pool. -/
theorem indicesOf_map {order : List Nat} (h : ∀ id ∈ order, id < UInt32.size) :
    indicesOf (order.map UInt32.ofNat) = Ranking.indicesOf order := by
  have hzip : (order.map UInt32.ofNat).zipIdx.map (fun a => (a.1.toNat, a.2)) = order.zipIdx := by
    rw [List.zipIdx_map, List.map_map]
    conv_rhs => rw [← List.map_id order.zipIdx]
    refine List.map_congr_left fun a ha => ?_
    simp [UInt32.toNat_ofNat_of_lt' (h a.1 (List.fst_mem_of_mem_zipIdx ha))]
  rw [indicesOf, Ranking.indicesOf, ← hzip, List.foldl_map, List.length_map]
end Ranks

/-! ## Keys and handles -/

variable {κ : Type} [BEq κ] [Hashable κ] {a : Arena κ}

/-- The keys are distinct, and their numbers are their places in 32 bits. -/
structure WellFormed (a : Arena κ) : Prop where
  nodup : a.keys.toList.Nodup
  ids_iff : ∀ (key : κ) (id : UInt32),
    a.ids[key]? = some id ↔ ∃ place, a.keys[place]? = some key ∧ UInt32.ofNat place = id

theorem wellFormed_empty (name : String) : WellFormed ({ name } : Arena κ) where
  nodup := List.nodup_nil
  ids_iff := by simp

/-- A handle stands for a place that it has room for. -/
theorem toNat_ofNat {place : Nat} {key : κ} (hsize : a.size ≤ UInt32.size) (h : a.keys[place]? = some key) :
    (UInt32.ofNat place).toNat = place :=
  UInt32.toNat_ofNat_of_lt' (Nat.lt_of_lt_of_le (Array.getElem?_eq_some_iff.mp h).1 hsize)

/-- A new key leaves the places of the others as they are. -/
theorem getElem?_push {place : Nat} {key k : κ} (h : a.keys[place]? = some k) :
    (a.push key).keys[place]? = some k := by
  have hlt := (Array.getElem?_eq_some_iff.mp h).1
  rw [push, Array.getElem?_push_lt hlt, ← h, Array.getElem?_eq_getElem hlt]

namespace WellFormed

variable (h : a.WellFormed)

include h

/-- A key has one place. -/
theorem place_inj {place place' : Nat} {key : κ} (hplace : a.keys[place]? = some key)
    (hplace' : a.keys[place']? = some key) : place = place' := by
  rw [← Array.getElem?_toList] at hplace hplace'
  have hlt := (List.getElem?_eq_some_iff.mp hplace).1
  exact (List.getElem?_inj hlt h.nodup).mp (hplace.trans hplace'.symm)

/-- As long as every place has a handle of its own, the number of a key is its place. -/
theorem ids_iff_getElem? (hsize : a.size ≤ UInt32.size) (key : κ) (id : UInt32) :
    a.ids[key]? = some id ↔ a.keys[id.toNat]? = some key := by
  rw [h.ids_iff]
  constructor
  · rintro ⟨place, hplace, rfl⟩
    rwa [toNat_ofNat hsize hplace]
  · exact fun hid => ⟨_, hid, UInt32.ofNat_toNat⟩

theorem ids_of_notMem {key : κ} (hkey : key ∉ a.keys) : a.ids[key]? = none := by
  rw [Option.eq_none_iff_forall_ne_some]
  rintro id hid
  obtain ⟨place, hplace, -⟩ := (h.ids_iff key id).mp hid
  exact hkey (Array.mem_of_getElem? hplace)

theorem intern_of_getElem? (hopen : a.isSealed = false) {place : Nat} {key : κ} (hplace : a.keys[place]? = some key) :
    a.intern key = .ok (⟨UInt32.ofNat place⟩, a) := by
  simp only [intern, hopen, Bool.false_eq_true, if_false, (h.ids_iff key _).mpr ⟨place, hplace, rfl⟩]

theorem intern_of_notMem (hopen : a.isSealed = false) {key : κ} (hkey : key ∉ a.keys) :
    a.intern key = .ok (⟨UInt32.ofNat a.size⟩, a.push key) := by
  simp only [intern, hopen, Bool.false_eq_true, if_false, h.ids_of_notMem hkey]
  rfl

/-- A new key gets its place as its number. -/
theorem push [LawfulBEq κ] {key : κ} (hkey : key ∉ a.keys) : (a.push key).WellFormed where
  nodup := by
    rw [Arena.push, Array.toList_push]
    exact List.nodup_append.mpr ⟨h.nodup, List.nodup_singleton key, fun k hk k' hk' heq =>
      hkey (Array.mem_toList_iff.mp (List.mem_singleton.mp hk' ▸ heq ▸ hk))⟩
  ids_iff k id := by
    rw [Arena.push, Std.HashMap.getElem?_insert]
    by_cases hk : key = k
    · subst hk
      rw [beq_self_eq_true, if_pos rfl]
      have hplace (place : Nat) : (a.keys.push key)[place]? = some key ↔ place = a.keys.size := by
        rw [Array.getElem?_push]
        split
        · simp_all
        · exact ⟨fun hold => absurd (Array.mem_of_getElem? hold) hkey, fun heq => absurd heq ‹_›⟩
      simp [hplace]
    · rw [if_neg (by simpa using hk), h.ids_iff]
      refine exists_congr fun place => and_congr_left fun _ => ?_
      rw [Array.getElem?_push]
      split
      · simp_all
      · rfl

end WellFormed

/-! ### Sealing -/

section sealing

variable {σ : Type} {sortKey : κ → Result σ}

/-- A sealed arena tells the key behind a handle. -/
theorem key_eq (hsealed : a.isSealed = true) {h : Handle κ} {key : κ} (hkey : a.keys[h.id.toNat]? = some key) :
    a.key h = .ok key := by
  obtain ⟨ranks, hranks⟩ := Option.isSome_iff_exists.mp hsealed
  rw [Arena.key, Arena.ranks, hranks, hkey]
  rfl

/-- An arena is sealed if it has not been sealed and every key has a sort key. -/
theorem exists_sealBy (hopen : a.isSealed = false) (cmp : σ → σ → Ordering)
    (hall : ∀ key ∈ a.keys, ∃ s, sortKey key = .ok s) :
    ∃ ranks, a.sealBy cmp sortKey = .ok { a with ranks? := some ranks } := by
  obtain ⟨sortKeys, hkeys⟩ := Result.exists_mapM fun key hkey => hall key (Array.mem_toList_iff.mp hkey)
  exact ⟨_, by rw [sealBy, hopen, if_neg Bool.false_ne_true, hkeys]; rfl⟩

/-- An arena is sealed by sort keys that all its keys have. -/
theorem exists_of_sealBy {cmp : σ → σ → Ordering} {b : Arena κ} (h : a.sealBy cmp sortKey = .ok b) :
    a.isSealed = false ∧ ∃ sortKeys, a.keys.toList.mapM sortKey = .ok sortKeys ∧
      b = { a with ranks? := some (Ranks.ofSortKeys cmp sortKeys) } := by
  unfold sealBy at h
  split at h
  · cases h
  · rename_i hopen
    obtain ⟨sortKeys, hkeys, h⟩ := Result.bind_eq_ok h
    exact ⟨by simpa using hopen, sortKeys, Result.within_eq_ok hkeys, (Except.ok.inj h).symm⟩

end sealing

end Arena

end Dalvik
