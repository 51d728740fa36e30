import Mathlib.Data.List.Perm.Subperm
import Dalvik.Pool
import Dalvik.Proofs.Order.Sorting

/-!
# What a pool holds and how it ranks it

`WellFormed` ties the ids of a pool to its keys; it holds of empty pools and is
kept by every insertion. `Ranked` says what finalizing by sort keys that tell
the keys apart makes of a well-formed pool (`ranked_finalizedBy`): the keys in
the order of their indices are all keys, strictly ascending, and each of them
has its place as its index.
-/

namespace Dalvik

/-! ## Writing to an array at given places -/

/-- Writes values to places of an array one after the other. -/
def fill {β γ : Type} (f : γ → β) (array : Array β) (entries : List (Nat × γ)) : Array β :=
  entries.foldl (fun array entry => array.setIfInBounds entry.1 (f entry.2)) array

section fill

variable {β γ : Type} (f : γ → β)

theorem fill_cons (array : Array β) (entry : Nat × γ) (entries : List (Nat × γ)) :
    fill f array (entry :: entries) = fill f (array.setIfInBounds entry.1 (f entry.2)) entries :=
  rfl

theorem fill_getElem?_of_notMem {entries : List (Nat × γ)} {place : Nat} (h : place ∉ entries.map (·.1))
    (array : Array β) : (fill f array entries)[place]? = array[place]? := by
  induction entries generalizing array with
  | nil => rfl
  | cons entry entries ih =>
    rw [List.map_cons, List.mem_cons, not_or] at h
    rw [fill_cons, ih h.2, Array.getElem?_setIfInBounds_ne (Ne.symm h.1)]

/-- What is written to a place that is written to once is found there. -/
theorem fill_getElem?_of_mem {entries : List (Nat × γ)} (hnodup : (entries.map (·.1)).Nodup) {place : Nat}
    {value : γ} (h : (place, value) ∈ entries) {array : Array β} (hplace : place < array.size) :
    (fill f array entries)[place]? = some (f value) := by
  induction entries generalizing array with
  | nil => cases h
  | cons entry entries ih =>
    rw [List.map_cons, List.nodup_cons] at hnodup
    rw [fill_cons]
    rcases List.mem_cons.mp h with rfl | h
    · rw [fill_getElem?_of_notMem f hnodup.1, Array.getElem?_setIfInBounds_self_of_lt hplace]
    · exact ih hnodup.2 h (by simpa using hplace)

end fill

/-! ## The order of ids -/

namespace Ranking

theorem indicesOf_eq (order : List Nat) :
    indicesOf order = fill UInt32.ofNat (Array.replicate order.length noIndex) order.zipIdx :=
  rfl

/-- Every id of an order has its place as its index. -/
theorem indicesOf_getElem? {order : List Nat} (h : order.Perm (List.range order.length)) {place id : Nat}
    (hid : order[place]? = some id) : (indicesOf order)[id]? = some (UInt32.ofNat place) := by
  have hnodup : order.Nodup := h.nodup_iff.mpr List.nodup_range
  have hlt : id < order.length := by
    simpa using h.mem_iff.mp (List.mem_of_getElem? hid)
  rw [indicesOf_eq]
  refine fill_getElem?_of_mem _ (by simpa using hnodup) ?_ (by simpa using hlt)
  rw [List.mem_zipIdx_iff_getElem?]
  exact hid

variable {α σ : Type} (cmp : σ → σ → Ordering)

theorem sortedIds_perm (sortKeys : List σ) : (sortedIds cmp sortKeys).Perm (List.range sortKeys.length) := by
  have h := (List.mergeSort_perm sortKeys.zipIdx fun a b => (cmp a.1 b.1).isLE).map (·.2)
  rwa [List.zipIdx_map_snd, List.range'_eq_map_range, List.map_id'' (by simp)] at h

theorem filterMap_range (keys : List α) : (List.range keys.length).filterMap (keys[·]?) = keys := by
  induction keys with
  | nil => rfl
  | cons key keys ih =>
    rw [List.length_cons, List.range_succ_eq_map, List.filterMap_cons]
    simpa [List.filterMap_map, Function.comp_def] using ih

/-- The keys in the order of their ids are all keys. -/
theorem sortedIds_filterMap_perm (key : α → σ) (keys : List α) :
    ((sortedIds cmp (keys.map key)).filterMap (keys[·]?)).Perm keys := by
  have h := (sortedIds_perm cmp (keys.map key)).filterMap (keys[·]?)
  rwa [List.length_map, filterMap_range] at h

/-- The keys in the order of their ids are in the order of their sort keys. -/
theorem sortedIds_filterMap_pairwise [Std.TransCmp cmp] (key : α → σ) (keys : List α) :
    ((sortedIds cmp (keys.map key)).filterMap (keys[·]?)).Pairwise fun a b => (cmp (key a) (key b)).isLE = true := by
  have hsorted := mergeSort_pairwise_isLE_on Prod.fst cmp (keys.map key).zipIdx
  rw [sortedIds, List.filterMap_map, List.pairwise_filterMap]
  refine hsorted.imp_of_mem fun {p q} hp hq hle a ha b hb => ?_
  rw [List.mem_mergeSort, List.mem_zipIdx_iff_getElem?, List.getElem?_map] at hp hq
  simp only [Function.comp_apply] at ha hb
  simp only [ha, hb, Option.map_some, Option.some.injEq] at hp hq
  rwa [hp, hq]

end Ranking

/-! ## Pools -/

namespace Pool

variable {α : Type} [BEq α] [Hashable α]

/-- The ids of a pool are the places of its keys. -/
structure WellFormed (p : Pool α) : Prop where
  ids_iff : ∀ (key : α) (id : Nat), p.ids[key]? = some id ↔ p.keys[id]? = some key

/-- The pool takes keys and gives them their places as ids. -/
structure Growing (p : Pool α) : Prop where
  wellFormed : p.WellFormed
  ranking?_eq : p.ranking? = none

/-- The pool as it is finalized by sort keys. -/
def finalizedBy {σ : Type} (p : Pool α) (cmp : σ → σ → Ordering) (key : α → σ) : Pool α :=
  { p with ranking? := some (Ranking.ofSortKeys cmp (p.keys.toList.map key)) }

theorem finalizeBy_eq {σ : Type} {p : Pool α} (h : p.ranking? = none) (cmp : σ → σ → Ordering) (key : α → σ) :
    p.finalizeBy cmp (fun a => .ok (key a)) = .ok (p.finalizedBy cmp key) := by
  have hm : p.keys.toList.mapM (fun a => (.ok (key a) : Result σ)) = .ok (p.keys.toList.map key) :=
    List.mapM_pure ..
  simp only [finalizeBy, isFinalized, h, hm]
  rfl

/-! ### Keys and ids -/

theorem growing_empty (name : String) : Growing ({ name } : Pool α) where
  wellFormed := ⟨by simp⟩
  ranking?_eq := rfl

theorem WellFormed.nodup {p : Pool α} (h : p.WellFormed) : p.keys.toList.Nodup := by
  rw [List.nodup_iff_injective_get]
  intro i j hij
  have hi : p.keys[i.val]? = some (p.keys.toList.get i) := by simp
  have hj : p.keys[j.val]? = some (p.keys.toList.get j) := by simp
  rw [← hij] at hj
  rw [← h.ids_iff] at hi hj
  exact Fin.ext (Option.some.inj (hi.symm.trans hj))

/-- A pool whose keys are all named in a list is no larger than the list. -/
theorem WellFormed.size_le {β : Type} {p : Pool α} (h : p.WellFormed) {name : α → β} (hname : Function.Injective name)
    {names : List β} (hnames : ∀ a ∈ p.keys, name a ∈ names) : p.size ≤ names.length := by
  have hsub : p.keys.toList.map name ⊆ names := fun b hb => by
    obtain ⟨a, ha, rfl⟩ := List.mem_map.mp hb
    exact hnames a (Array.mem_toList_iff.mp ha)
  simpa [size] using ((h.nodup.map hname).subperm hsub).length_le

section lawful

variable [LawfulBEq α]

theorem WellFormed.contains_iff {p : Pool α} (h : p.WellFormed) (key : α) :
    p.ids.contains key = true ↔ key ∈ p.keys := by
  rw [Std.HashMap.contains_eq_isSome_getElem?, Option.isSome_iff_exists, Array.mem_iff_getElem?]
  exact exists_congr (h.ids_iff key)

/-- An insertion keeps the ids of a pool the places of its keys. -/
theorem WellFormed.insert {p : Pool α} (h : p.WellFormed) (key : α) : (p.insert key).WellFormed where
  ids_iff := by
    intro k id
    unfold Pool.insert
    split
    · exact h.ids_iff k id
    rename_i hnew
    have hfresh : ∀ id, p.keys[id]? ≠ some key := fun id hid =>
      hnew ((h.contains_iff key).mpr (Array.mem_of_getElem? hid))
    rw [Std.HashMap.getElem?_insert, Array.getElem?_push]
    by_cases hk : key = k
    · subst hk
      rw [beq_self_eq_true, if_pos rfl]
      by_cases hid : id = p.keys.size
      · simp [hid]
      · simp [hid, Ne.symm hid, hfresh id]
    · rw [if_neg (by simpa using hk), h.ids_iff]
      split
      · subst_vars
        simp [hk]
      · rfl

/-- An insertion adds one key and loses none. -/
@[simp] theorem mem_insert {p : Pool α} (h : p.WellFormed) {key k : α} :
    k ∈ (p.insert key).keys ↔ k = key ∨ k ∈ p.keys := by
  unfold Pool.insert
  split
  · rename_i hold
    have := (h.contains_iff key).mp hold
    grind
  · simp [or_comm]

/-- An insertion lets a pool take more keys. -/
theorem Growing.insert {p : Pool α} (h : p.Growing) (key : α) : (p.insert key).Growing where
  wellFormed := h.wellFormed.insert key
  ranking?_eq := by
    unfold Pool.insert
    split
    · exact h.ranking?_eq
    · exact h.ranking?_eq

end lawful

/-! ### Ranks -/

/-- What finalizing makes of a pool: the keys are ranked by `before`. -/
structure Ranked (p : Pool α) (before : α → α → Prop) : Prop where
  isFinalized : p.isFinalized = true
  wellFormed : p.WellFormed
  /-- The assigned indices are the numbers from zero on, each used once. -/
  indices : ((List.range p.size).map p.index).Perm ((List.range p.size).map UInt32.ofNat)
  /-- The keys in the order of their indices are all keys. -/
  perm : p.sortedKeys.Perm p.keys.toList
  ascending : p.sortedKeys.Pairwise before
  /-- A key has its place as its index. -/
  index : ∀ {place : Nat} {key : α}, p.sortedKeys[place]? = some key → p.indexOrNone key = UInt32.ofNat place

theorem filterMap_getElem? {β γ : Type} {f : β → Option γ} {l : List β} (h : ∀ b ∈ l, (f b).isSome) {place : Nat}
    {c : γ} (hc : (l.filterMap f)[place]? = some c) : ∃ b, l[place]? = some b ∧ f b = some c := by
  induction l generalizing place with
  | nil => cases hc
  | cons b l ih =>
    obtain ⟨d, hd⟩ := Option.isSome_iff_exists.mp (h b List.mem_cons_self)
    rw [List.filterMap_cons_some hd] at hc
    cases place with
    | zero => exact ⟨b, rfl, by simpa [hd] using hc⟩
    | succ place => exact ih (fun b hb => h b (List.mem_cons_of_mem _ hb)) hc

section finalizedBy

variable {σ : Type} (cmp : σ → σ → Ordering) (key : α → σ) (p : Pool α)

theorem sortedKeys_finalizedBy : (p.finalizedBy cmp key).sortedKeys =
    (Ranking.sortedIds cmp (p.keys.toList.map key)).filterMap (p.keys.toList[·]?) := by
  simp [sortedKeys, sorted, ranking, finalizedBy, Ranking.ofSortKeys, bind, Except.bind, pure, Except.pure,
    List.map_filterMap, Function.comp_def]

theorem sortedIds_length : (Ranking.sortedIds cmp (p.keys.toList.map key)).length = p.size := by
  have := (Ranking.sortedIds_perm cmp (p.keys.toList.map key)).length_eq
  simpa [size] using this

/-- The id at a place of the order has that place as its index. -/
theorem index_finalizedBy {place id : Nat}
    (h : (Ranking.sortedIds cmp (p.keys.toList.map key))[place]? = some id) :
    (p.finalizedBy cmp key).index id = UInt32.ofNat place := by
  have hperm := Ranking.sortedIds_perm cmp (p.keys.toList.map key)
  rw [← hperm.length_eq.trans List.length_range] at hperm
  simp [index, finalizedBy, Ranking.ofSortKeys, Ranking.indicesOf_getElem? hperm h]

theorem indices_perm_finalizedBy : ((List.range p.size).map (p.finalizedBy cmp key).index).Perm
    ((List.range p.size).map UInt32.ofNat) := by
  have hperm := Ranking.sortedIds_perm cmp (p.keys.toList.map key)
  rw [List.length_map, Array.length_toList] at hperm
  have hmap : (Ranking.sortedIds cmp (p.keys.toList.map key)).map (p.finalizedBy cmp key).index =
      (List.range p.size).map UInt32.ofNat := by
    refine List.ext_getElem (by simp [sortedIds_length]) fun i hi _ => ?_
    simp only [List.getElem_map, List.getElem_range]
    exact index_finalizedBy cmp key p (List.getElem?_eq_getElem (by simpa using hi))
  rw [← hmap]
  exact (hperm.map _).symm

variable {p}

/-- Sort keys that tell the keys of a pool apart rank them. -/
theorem ranked_finalizedBy [Std.TransCmp cmp] [Std.LawfulEqCmp cmp] (h : p.WellFormed)
    (hinj : Function.Injective key) {before : α → α → Prop}
    (hbefore : ∀ a b, cmp (key a) (key b) = .lt → before a b) : (p.finalizedBy cmp key).Ranked before where
  isFinalized := rfl
  wellFormed := ⟨h.ids_iff⟩
  indices := indices_perm_finalizedBy cmp key p
  perm := by
    rw [sortedKeys_finalizedBy]
    exact Ranking.sortedIds_filterMap_perm cmp key p.keys.toList
  ascending := by
    have hnodup : (p.finalizedBy cmp key).sortedKeys.Nodup := by
      rw [sortedKeys_finalizedBy, (Ranking.sortedIds_filterMap_perm cmp key p.keys.toList).nodup_iff]
      exact h.nodup
    rw [sortedKeys_finalizedBy] at hnodup ⊢
    have hle := Ranking.sortedIds_filterMap_pairwise cmp key p.keys.toList
    refine (hle.and hnodup).imp fun {a b} ⟨hab, hne⟩ => hbefore a b ?_
    cases hc : cmp (key a) (key b) with
    | lt => rfl
    | eq => exact absurd (hinj (Std.LawfulEqCmp.eq_of_compare hc)) hne
    | gt => rw [hc] at hab; cases hab
  index := by
    intro place k hk
    rw [sortedKeys_finalizedBy] at hk
    have hall : ∀ id ∈ Ranking.sortedIds cmp (p.keys.toList.map key), (p.keys.toList[id]?).isSome := by
      intro id hid
      have := (Ranking.sortedIds_perm cmp (p.keys.toList.map key)).mem_iff.mp hid
      simpa using this
    obtain ⟨id, hid, hget⟩ := filterMap_getElem? hall hk
    have hfound : (p.finalizedBy cmp key).id? k = some id := by
      show p.ids[k]? = some id
      rw [h.ids_iff, ← Array.getElem?_toList]
      exact hget
    rw [indexOrNone, hfound]
    exact index_finalizedBy cmp key p hid

end finalizedBy

/-! ### Places -/

/-- The place of a key in the order of the indices. -/
def place (p : Pool α) (key : α) : Nat :=
  p.sortedKeys.idxOf key

namespace Ranked

variable {p : Pool α} {before : α → α → Prop}

theorem mem_sortedKeys (h : p.Ranked before) {key : α} : key ∈ p.sortedKeys ↔ key ∈ p.keys := by
  rw [h.perm.mem_iff, Array.mem_toList_iff]

theorem nodup (h : p.Ranked before) : p.sortedKeys.Nodup :=
  h.perm.nodup_iff.mpr h.wellFormed.nodup

theorem length_sortedKeys (h : p.Ranked before) : p.sortedKeys.length = p.size :=
  h.perm.length_eq

/-- The keys in the order of their indices are given by what they are. -/
theorem sortedKeys_eq {σ : Type} (key : α → σ) (cmp : σ → σ → Ordering) [Std.TransCmp cmp]
    (h : p.Ranked fun a b => cmp (key a) (key b) = .lt) {keys : List α}
    (hkeys : keys.Pairwise fun a b => cmp (key a) (key b) = .lt) (hmem : ∀ a, a ∈ p.keys ↔ a ∈ keys) :
    p.sortedKeys = keys :=
  eq_of_pairwise_lt key cmp h.ascending hkeys fun a => by rw [h.mem_sortedKeys, hmem]

variable [LawfulBEq α]

theorem place_lt (h : p.Ranked before) {key : α} (hkey : key ∈ p.keys) : p.place key < p.size := by
  rw [← h.length_sortedKeys]
  exact List.idxOf_lt_length_of_mem (h.mem_sortedKeys.mpr hkey)

theorem getElem?_place (h : p.Ranked before) {key : α} (hkey : key ∈ p.keys) :
    p.sortedKeys[p.place key]? = some key :=
  List.getElem?_idxOf (h.mem_sortedKeys.mpr hkey)

/-- A key has its place as its index. -/
theorem indexOrNone_eq (h : p.Ranked before) {key : α} (hkey : key ∈ p.keys) :
    p.indexOrNone key = UInt32.ofNat (p.place key) :=
  h.index (h.getElem?_place hkey)

/-- The places of the sorted keys are the numbers from zero on. -/
theorem map_place (h : p.Ranked before) : p.sortedKeys.map p.place = List.range p.size := by
  refine List.ext_getElem (by rw [List.length_map, List.length_range, h.length_sortedKeys]) fun i hi _ => ?_
  rw [List.getElem_map, List.getElem_range, place, h.nodup.idxOf_getElem i (by simpa using hi)]

theorem place_inj (h : p.Ranked before) {a b : α} (ha : a ∈ p.keys) (hb : b ∈ p.keys)
    (hab : p.place a = p.place b) : a = b := by
  have := h.getElem?_place ha
  rw [hab, h.getElem?_place hb] at this
  exact (Option.some.inj this).symm

/-- What holds of the sorted keys in order holds of keys at ascending places. -/
theorem rel_of_place_lt (h : p.Ranked before) {R : α → α → Prop} (hR : p.sortedKeys.Pairwise R) {a b : α}
    (ha : a ∈ p.keys) (hb : b ∈ p.keys) (hab : p.place a < p.place b) : R a b := by
  have ha := List.getElem?_eq_some_iff.mp (h.getElem?_place ha)
  have hb := List.getElem?_eq_some_iff.mp (h.getElem?_place hb)
  have := List.pairwise_iff_getElem.mp hR _ _ ha.1 hb.1 hab
  rwa [ha.2, hb.2] at this

theorem before_of_place_lt (h : p.Ranked before) {a b : α} (ha : a ∈ p.keys) (hb : b ∈ p.keys)
    (hab : p.place a < p.place b) : before a b :=
  h.rel_of_place_lt h.ascending ha hb hab

/-- Places are in the order of the sort keys. -/
theorem place_lt_iff {σ : Type} (key : α → σ) {cmp : σ → σ → Ordering} [Std.TransCmp cmp]
    (h : p.Ranked fun a b => cmp (key a) (key b) = .lt) {a b : α} (ha : a ∈ p.keys) (hb : b ∈ p.keys) :
    p.place a < p.place b ↔ cmp (key a) (key b) = .lt := by
  refine ⟨h.before_of_place_lt ha hb, fun hab => ?_⟩
  by_contra hle
  rcases Nat.eq_or_lt_of_le (Nat.le_of_not_lt hle) with heq | hlt
  · rw [h.place_inj hb ha heq, @Std.ReflCmp.compare_self _ cmp] at hab
    cases hab
  · rw [@Std.OrientedCmp.eq_swap _ cmp, h.before_of_place_lt hb ha hlt] at hab
    cases hab

section bounded

variable (hsize : p.size ≤ UInt32.size)

include hsize

/-- As long as there are no more keys than indices, the index of a key is its place. -/
theorem toNat_indexOrNone (h : p.Ranked before) {key : α} (hkey : key ∈ p.keys) :
    (p.indexOrNone key).toNat = p.place key := by
  rw [h.indexOrNone_eq hkey, UInt32.toNat_ofNat_of_lt' (Nat.lt_of_lt_of_le (h.place_lt hkey) hsize)]

/-- Keys have indices of their own. -/
theorem indexOrNone_inj (h : p.Ranked before) {a b : α} (ha : a ∈ p.keys) (hb : b ∈ p.keys)
    (hab : p.indexOrNone a = p.indexOrNone b) : a = b :=
  h.place_inj ha hb (by rw [← h.toNat_indexOrNone hsize ha, ← h.toNat_indexOrNone hsize hb, hab])

/-- Indices are in the order of the sort keys. -/
theorem compare_indexOrNone {σ : Type} (key : α → σ) {cmp : σ → σ → Ordering} [Std.TransCmp cmp]
    (h : p.Ranked fun a b => cmp (key a) (key b) = .lt) {a b : α} (ha : a ∈ p.keys) (hb : b ∈ p.keys) :
    compare (p.indexOrNone a) (p.indexOrNone b) = cmp (key a) (key b) := by
  have hindex {a b : α} (ha : a ∈ p.keys) (hb : b ∈ p.keys) :
      p.indexOrNone a < p.indexOrNone b ↔ cmp (key a) (key b) = .lt := by
    rw [UInt32.lt_iff_toNat_lt, h.toNat_indexOrNone hsize ha, h.toNat_indexOrNone hsize hb, h.place_lt_iff key ha hb]
  cases hkeys : cmp (key a) (key b) with
  | lt => exact Std.compare_eq_lt.mpr ((hindex ha hb).mpr hkeys)
  | gt => exact Std.compare_eq_gt.mpr ((hindex hb ha).mpr (Std.OrientedCmp.lt_of_gt hkeys))
  | eq =>
    have hne {a b : α} (hkeys : cmp (key a) (key b) = .eq) : ¬ cmp (key a) (key b) = .lt := by
      rw [hkeys]
      decide
    have hle := UInt32.not_lt.mp (mt (hindex ha hb).mp (hne hkeys))
    have hge := UInt32.not_lt.mp (mt (hindex hb ha).mp (hne (Std.OrientedCmp.eq_symm hkeys)))
    exact Std.compare_eq_iff_eq.mpr (UInt32.le_antisymm hge hle)

end bounded

end Ranked

/-! ### Pools with the same keys -/

/-- The pools rank the same keys alike. -/
structure Alike (p q : Pool α) : Prop where
  size_eq : p.size = q.size
  sortedKeys_eq : p.sortedKeys = q.sortedKeys
  indexOrNone_eq : ∀ key, p.indexOrNone key = q.indexOrNone key

theorem WellFormed.indexOrNone_of_notMem {p : Pool α} (h : p.WellFormed) {key : α} (hkey : key ∉ p.keys) :
    p.indexOrNone key = noIndex := by
  have hid : p.id? key = none := by
    rw [Option.eq_none_iff_forall_ne_some]
    exact fun id hid => hkey (Array.mem_of_getElem? ((h.ids_iff key id).mp hid))
  rw [indexOrNone, hid]

/-- The ranks of the keys are given by the set of the keys. -/
theorem Ranked.alike [LawfulBEq α] {σ : Type} (key : α → σ) (cmp : σ → σ → Ordering) [Std.TransCmp cmp] {p q : Pool α}
    (hp : p.Ranked fun a b => cmp (key a) (key b) = .lt) (hq : q.Ranked fun a b => cmp (key a) (key b) = .lt)
    (hmem : ∀ a, a ∈ p.keys ↔ a ∈ q.keys) : p.Alike q := by
  have hsorted : p.sortedKeys = q.sortedKeys :=
    hp.sortedKeys_eq key cmp hq.ascending fun a => by rw [hq.mem_sortedKeys, hmem]
  refine ⟨by rw [← hp.length_sortedKeys, ← hq.length_sortedKeys, hsorted], hsorted, fun a => ?_⟩
  by_cases ha : a ∈ p.keys
  · rw [hp.indexOrNone_eq ha, hq.indexOrNone_eq ((hmem a).mp ha), place, place, hsorted]
  · rw [hp.wellFormed.indexOrNone_of_notMem ha, hq.wellFormed.indexOrNone_of_notMem (mt (hmem a).mpr ha)]

end Pool

end Dalvik
