import Mathlib.Data.List.Forall2
import Mathlib.Logic.Relator
import Dalvik.Proofs.Arena

/-!
# Arenas that code pools

The keys of an arena may be codes of what is spelled out in a pool. `Arena.Codes` says
that the arena holds the codes of the keys of the pool, in the same order, and ranks them
alike. Then a handle stands for a key of the pool (`Handle.Names`) and has its index
(`Codes.index_eq`). As long as every key has a handle of its own, an arena that codes a
pool still does so when a key is interned (`Codes.intern`) and when it is sealed by sort
keys that compare as those of the pool (`Codes.sealed`).
-/

namespace Dalvik

variable {κ α : Type} [BEq α] [Hashable α]

/-- A handle stands for a key of a pool. -/
def Handle.Names (h : Handle κ) (p : Pool α) (x : α) : Prop :=
  p.id? x = some h.id.toNat

namespace Handle.Names

variable {h k : Handle κ} {p q : Pool α} {x y : α}

theorem left_inj (hx : h.Names p x) (kx : k.Names p x) : h = k :=
  congrArg Handle.mk (UInt32.toNat_inj.mp (Option.some.inj (hx.symm.trans kx)))

theorem right_inj (hp : p.WellFormed) (hx : h.Names p x) (hy : h.Names p y) : x = y :=
  Option.some.inj (((hp.ids_iff x _).mp hx).symm.trans ((hp.ids_iff y _).mp hy))

theorem mem (hp : p.WellFormed) (hx : h.Names p x) : x ∈ p.keys :=
  Array.mem_of_getElem? ((hp.ids_iff x _).mp hx)

end Handle.Names

/-- A key of a pool that has a handle for each of its keys has one. -/
theorem Handle.exists_names {p : Pool α} (hp : p.WellFormed) (hsize : p.size ≤ UInt32.size) {x : α} (hx : x ∈ p.keys) :
    ∃ h : Handle κ, h.Names p x := by
  obtain ⟨place, hplace⟩ := Array.mem_iff_getElem?.mp hx
  have hlt := Nat.lt_of_lt_of_le (Array.getElem?_eq_some_iff.mp hplace).1 hsize
  refine ⟨⟨UInt32.ofNat place⟩, ?_⟩
  rw [Handle.Names, UInt32.toNat_ofNat_of_lt' hlt]
  exact (hp.ids_iff x place).mpr hplace

theorem biUnique_names {p : Pool α} (hp : p.WellFormed) :
    Relator.BiUnique fun (h : Handle κ) (x : α) => h.Names p x :=
  ⟨fun _ _ _ hx hy => hx.left_inj hy, fun _ _ _ hx hy => hx.right_inj hp hy⟩

/-- What has an id in the first pool has the same in the other. -/
structure Pool.Extends (p q : Pool α) : Prop where
  id? : ∀ {x : α} {id : Nat}, p.id? x = some id → q.id? x = some id

namespace Pool.Extends

variable {p q r : Pool α}

theorem refl (p : Pool α) : p.Extends p :=
  ⟨id⟩

theorem trans (h : p.Extends q) (h' : q.Extends r) : p.Extends r :=
  ⟨fun hx => h'.id? (h.id? hx)⟩

theorem names (hpq : p.Extends q) {h : Handle κ} {x : α} (hx : h.Names p x) : h.Names q x :=
  hpq.id? hx

variable [LawfulBEq α]

theorem insert (hp : p.WellFormed) (key : α) : p.Extends (p.insert key) := by
  refine ⟨fun {x id} hx => ?_⟩
  have hkeys := (hp.ids_iff x id).mp hx
  refine ((hp.insert key).ids_iff x id).mpr ?_
  unfold Pool.insert
  split
  · exact hkeys
  · have hlt := (Array.getElem?_eq_some_iff.mp hkeys).1
    rw [Array.getElem?_push_lt hlt, ← hkeys, Array.getElem?_eq_getElem hlt]

end Pool.Extends

namespace Arena

variable [BEq κ] [Hashable κ] {R S : κ → α → Prop} {a : Arena κ} {p : Pool α}

/-- The keys of the arena are codes, by `R`, of the keys of the pool in the same order, and
both are ranked alike. -/
structure Codes (R : κ → α → Prop) (a : Arena κ) (p : Pool α) : Prop where
  wellFormed : a.WellFormed
  keys : List.Forall₂ R a.keys.toList p.keys.toList
  ranks : p.ranking? = a.ranks?.map Ranks.toRanking

theorem codes_empty (name : String) : Codes R ({ name } : Arena κ) ({ name } : Pool α) where
  wellFormed := wellFormed_empty name
  keys := .nil
  ranks := rfl

/-- An arena that is not sealed takes every key. -/
theorem exists_intern (hopen : a.isSealed = false) (key : κ) :
    ∃ k b, a.intern key = .ok (k, b) ∧ b.isSealed = false ∧ a.size ≤ b.size := by
  rw [intern, hopen, if_neg Bool.false_ne_true]
  cases a.ids[key]? with
  | some id => exact ⟨_, _, rfl, hopen, Nat.le_refl _⟩
  | none =>
    refine ⟨_, _, rfl, hopen, ?_⟩
    rw [size, size, push, Array.size_push]
    exact Nat.le_succ _

namespace Codes

theorem imp (h : a.Codes R p) (hRS : ∀ k x, R k x → S k x) : a.Codes S p :=
  { h with keys := h.keys.imp hRS }

variable (h : a.Codes R p)

include h

theorem size_eq : a.size = p.size := by
  rw [size, Pool.size, ← Array.length_toList, h.keys.length_eq, Array.length_toList]

theorem isSealed_eq : a.isSealed = p.isFinalized := by
  rw [isSealed, Pool.isFinalized, h.ranks, Option.isSome_map]

theorem exists_code {place : Nat} {x : α} (hx : p.keys[place]? = some x) :
    ∃ k, a.keys[place]? = some k ∧ R k x := by
  rw [← Array.getElem?_toList] at hx
  obtain ⟨hlt, rfl⟩ := List.getElem?_eq_some_iff.mp hx
  have hlt' : place < a.keys.toList.length := h.keys.length_eq ▸ hlt
  exact ⟨a.keys.toList[place], by rw [← Array.getElem?_toList, List.getElem?_eq_getElem hlt'], h.keys.get hlt' hlt⟩

theorem exists_coded {place : Nat} {k : κ} (hk : a.keys[place]? = some k) :
    ∃ x, p.keys[place]? = some x ∧ R k x := by
  rw [← Array.getElem?_toList] at hk
  obtain ⟨hlt, rfl⟩ := List.getElem?_eq_some_iff.mp hk
  have hlt' : place < p.keys.toList.length := h.keys.length_eq ▸ hlt
  exact ⟨p.keys.toList[place], by rw [← Array.getElem?_toList, List.getElem?_eq_getElem hlt'], h.keys.get hlt hlt'⟩

/-- A handle has the index of what it stands for. -/
theorem index_eq {k : Handle κ} {x : α} (hx : k.Names p x) : a.index k = p.indexOrNone x := by
  rw [Pool.indexOrNone, hx]
  dsimp only
  rw [index, Pool.index, h.ranks]
  cases a.ranks? <;> rfl

/-- Behind the handle of a key is its code. -/
theorem exists_getElem? (hp : p.WellFormed) {k : Handle κ} {x : α} (hx : k.Names p x) :
    ∃ code, a.keys[k.id.toNat]? = some code ∧ R code x :=
  h.exists_code ((hp.ids_iff x _).mp hx)

variable [LawfulBEq α] (hp : p.WellFormed) (hR : Relator.BiUnique R) (hopen : a.isSealed = false) {key : κ} {x : α}
  (hx : R key x) {k : Handle κ} {b : Arena κ} (hb : a.intern key = .ok (k, b))

include hp hR hopen hx hb

/-- Either both have the key, or both take it. -/
theorem intern_cases :
    (∃ place, p.keys[place]? = some x ∧ p.insert x = p ∧ a.keys[place]? = some key ∧ k = ⟨UInt32.ofNat place⟩ ∧ b = a) ∨
      (p.insert x = { p with keys := p.keys.push x, ids := p.ids.insert x p.keys.size } ∧ key ∉ a.keys ∧
        k = ⟨UInt32.ofNat a.size⟩ ∧ b = a.push key) := by
  by_cases hmem : x ∈ p.keys
  · obtain ⟨place, hplace⟩ := Array.mem_iff_getElem?.mp hmem
    obtain ⟨key', hkey, hx'⟩ := h.exists_code hplace
    obtain rfl := hR.1 hx hx'
    cases hb.symm.trans (h.wellFormed.intern_of_getElem? hopen hkey)
    exact .inl ⟨place, hplace, if_pos ((hp.contains_iff x).mpr hmem), hkey, rfl, rfl⟩
  · have hkey : key ∉ a.keys := fun hkey => by
      obtain ⟨place, hplace⟩ := Array.mem_iff_getElem?.mp hkey
      obtain ⟨y, hy, hky⟩ := h.exists_coded hplace
      exact hmem (hR.2 hx hky ▸ Array.mem_of_getElem? hy)
    cases hb.symm.trans (h.wellFormed.intern_of_notMem hopen hkey)
    exact .inr ⟨if_neg (mt (hp.contains_iff x).mp hmem), hkey, rfl, rfl⟩

/-- Both are of one size then. -/
theorem size_intern : b.size = (p.insert x).size := by
  rcases h.intern_cases hp hR hopen hx hb with ⟨_, _, hsame, _, _, rfl⟩ | ⟨hnew, _, _, rfl⟩
  · rw [hsame, h.size_eq]
  · rw [hnew, size, push, Array.size_push, Pool.size, Array.size_push]
    exact congrArg (· + 1) h.size_eq

/-- Interning the code of a key gives a handle that stands for the key. -/
theorem intern [LawfulBEq κ] (hsize : b.size ≤ UInt32.size) : b.Codes R (p.insert x) ∧ k.Names (p.insert x) x := by
  rcases h.intern_cases hp hR hopen hx hb with ⟨place, hplace, hsame, hkey, rfl, rfl⟩ | ⟨hnew, hkey, rfl, rfl⟩
  · rw [hsame, Handle.Names, toNat_ofNat hsize hkey]
    exact ⟨h, (hp.ids_iff x place).mpr hplace⟩
  · refine ⟨?_, ?_⟩
    · rw [hnew]
      refine ⟨h.wellFormed.push hkey, ?_, h.ranks⟩
      rw [push, Array.toList_push, Array.toList_push]
      exact List.rel_append h.keys (.cons hx .nil)
    · have hlt : a.size < UInt32.size := by
        rwa [size, push, Array.size_push] at hsize
      rw [Handle.Names, hnew, Pool.id?, Std.HashMap.getElem?_insert_self, UInt32.toNat_ofNat_of_lt' hlt, h.size_eq]
      rfl

end Codes

/-! ## Sealing -/

section sealing

variable {β σ τ : Type} {cmp : σ → σ → Ordering} {cmp' : τ → τ → Ordering}

/-- Sort keys that compare alike give the same order. -/
theorem sortedIds_congr {l : List β} {f : β → σ} {g : β → τ}
    (hcmp : ∀ x ∈ l, ∀ y ∈ l, cmp (f x) (f y) = cmp' (g x) (g y)) :
    Ranking.sortedIds cmp (l.map f) = Ranking.sortedIds cmp' (l.map g) := by
  -- Both sort the members with their ids, by what the members are mapped to.
  have hsame := List.map_mergeSort (l := l.zipIdx) (r := fun z w => (cmp (f z.1) (f w.1)).isLE)
    (s := fun a b : σ × Nat => (cmp a.1 b.1).isLE) (f := fun z => (f z.1, z.2)) fun _ _ _ _ => rfl
  have hsame' := List.map_mergeSort (l := l.zipIdx) (r := fun z w => (cmp (f z.1) (f w.1)).isLE)
    (s := fun a b : τ × Nat => (cmp' a.1 b.1).isLE) (f := fun z => (g z.1, z.2)) fun z hz w hw => by
      dsimp only
      rw [hcmp z.1 (List.fst_mem_of_mem_zipIdx hz) w.1 (List.fst_mem_of_mem_zipIdx hw)]
  rw [Ranking.sortedIds, Ranking.sortedIds, List.zipIdx_map, List.zipIdx_map]
  show (List.mergeSort (l.zipIdx.map fun z => (f z.1, z.2)) _).map _ =
    (List.mergeSort (l.zipIdx.map fun z => (g z.1, z.2)) _).map _
  rw [← hsame, ← hsame', List.map_map, List.map_map]
  rfl

variable {R : κ → α → Prop} {a : Arena κ} {p : Pool α}

/-- A sealed arena codes the finalized pool if the keys of both compare alike: those of the
arena by the rank of what they stand for. -/
theorem Codes.sealed [Std.TransCmp cmp] (h : a.Codes R p) (hsize : a.size ≤ UInt32.size) {sortKey : κ → Result σ}
    {b : Arena κ} (hsealed : a.sealBy cmp sortKey = .ok b) (rank : α → σ) {key : α → τ}
    (hrank : ∀ {k x}, R k x → sortKey k = .ok (rank x))
    (hcmp : ∀ x ∈ p.keys, ∀ y ∈ p.keys, cmp (rank x) (rank y) = cmp' (key x) (key y)) :
    b.Codes R (p.finalizedBy cmp' key) := by
  have hsortKeys : a.keys.toList.mapM sortKey = .ok (p.keys.toList.map rank) := by
    have hkeys := h.keys
    generalize a.keys.toList = ks at hkeys
    generalize p.keys.toList = xs at hkeys
    induction hkeys with
    | nil => rfl
    | cons hkx _ ih =>
      rw [List.mapM_cons, hrank hkx, ih]
      rfl
  have hsame : Ranking.sortedIds cmp (p.keys.toList.map rank) = Ranking.sortedIds cmp' (p.keys.toList.map key) :=
    sortedIds_congr fun x hx y hy => hcmp x (Array.mem_toList_iff.mp hx) y (Array.mem_toList_iff.mp hy)
  have hlength : (p.keys.toList.map rank).length ≤ UInt32.size := by
    rw [h.size_eq] at hsize
    rwa [List.length_map, Array.length_toList]
  have hfits : ∀ id ∈ Ranking.sortedIds cmp (p.keys.toList.map rank), id < UInt32.size := fun id hid =>
    Nat.lt_of_lt_of_le ((Ranking.mem_sortedIds cmp).mp hid) hlength
  obtain ⟨-, sortKeys, hkeys, rfl⟩ := exists_of_sealBy hsealed
  obtain rfl : p.keys.toList.map rank = sortKeys := Except.ok.inj (hsortKeys.symm.trans hkeys)
  refine ⟨⟨h.wellFormed.nodup, h.wellFormed.ids_iff⟩, h.keys, ?_⟩
  · show some (Ranking.ofSortKeys cmp' (p.keys.toList.map key)) = some (Ranks.ofSortKeys cmp (p.keys.toList.map rank)).toRanking
    rw [Ranking.ofSortKeys, Ranks.ofSortKeys, Ranks.toRanking, ← hsame, Ranks.sortedIds_eq cmp hlength,
      Ranks.indicesOf_map hfits, List.length_map, List.map_toArray, Ranks.toNat_map_ofNat hfits]

end sealing

end Arena

end Dalvik
