import Std.Data.String.ToNat
import Dalvik.Proofs.Arena.History
import Dalvik.Proofs.Builder.Gathering

/-!
# The order that the format demands

Finalizing seals each arena by the indices of what its keys are made of. As long as every
key has a handle of its own, the indices of an arena are then the numbers from zero on, and
its keys ascend strictly (`Arena.Ascends`): strings by their code units, and whatever is
made of handles by the indices of these, the most significant first (`finalize_formatOrder`).
One string more than there are handles, and there is no index left for it
(`not_formatOrder_numerals`).
-/

namespace Dalvik

namespace Arena

variable {κ : Type} [BEq κ] [Hashable κ]

/-- The entries of a sealed arena, in the order of their indices. -/
structure Lists (a : Arena κ) (entries : List (Handle κ × κ)) : Prop where
  sorted : a.sorted = .ok entries
  key : ∀ e ∈ entries, a.key e.1 = .ok e.2
  /-- There is one entry for each key. -/
  handles : (entries.map fun e => e.1.id.toNat).Perm (List.range a.size)
  /-- The indices are the numbers from zero on. -/
  indices : entries.map (fun e => (a.index e.1).toNat) = List.range a.size

/-- No index is beyond 32 bits. -/
theorem Lists.size_le {a : Arena κ} {entries : List (Handle κ × κ)} (h : a.Lists entries) : a.size ≤ UInt32.size := by
  by_contra hlt
  have hmem : UInt32.size ∈ entries.map fun e => (a.index e.1).toNat := by
    rw [h.indices, List.mem_range]
    exact Nat.lt_of_not_le hlt
  obtain ⟨e, -, he⟩ := List.mem_map.mp hmem
  exact Nat.lt_irrefl _ (he ▸ (a.index e.1).toNat_lt_size)

/-- The keys of a sealed arena ascend by their indices. -/
def Ascends (a : Arena κ) (before : κ → κ → Prop) : Prop :=
  ∃ entries, a.Lists entries ∧ entries.Pairwise fun e f => before e.2 f.2

namespace Codes

variable {α : Type} [BEq α] [Hashable α] {R : κ → α → Prop} {a : Arena κ} {p : Pool α} {before : α → α → Prop}

/-- What numbers of keys lead to on both sides, in order. -/
theorem forall₂_filterMap (h : a.Codes R p) (ids : List UInt32) :
    List.Forall₂ (fun (e : Handle κ × κ) x => a.keys[e.1.id.toNat]? = some e.2 ∧ p.keys[e.1.id.toNat]? = some x ∧ R e.2 x)
      (ids.filterMap fun id => a.keys[id.toNat]?.map (⟨id⟩, ·)) (ids.filterMap fun id => p.keys[id.toNat]?) := by
  induction ids with
  | nil => exact .nil
  | cons id ids ih =>
    cases hk : a.keys[id.toNat]? with
    | none =>
      have hx : p.keys[id.toNat]? = none := by
        rw [Array.getElem?_eq_none_iff] at hk ⊢
        exact h.size_eq.symm.trans_le hk
      simp only [List.filterMap_cons, hk, hx, Option.map_none]
      exact ih
    | some k =>
      obtain ⟨x, hx, hR⟩ := h.exists_coded hk
      simp only [List.filterMap_cons, hk, hx, Option.map_some]
      exact .cons ⟨hk, hx, hR⟩ ih

/-- The entries of an arena that codes a ranked pool code its keys in the order of their
indices. -/
theorem exists_sorted (h : a.Codes R p) (hp : p.Ranked before) : ∃ entries, a.sorted = .ok entries ∧
    List.Forall₂ (fun e x => e.1.Names p x ∧ a.key e.1 = .ok e.2 ∧ R e.2 x) entries p.sortedKeys := by
  obtain ⟨ranking, hranking⟩ := Option.isSome_iff_exists.mp hp.isFinalized
  obtain ⟨ranks, hranks, rfl⟩ := Option.map_eq_some_iff.mp (h.ranks.symm.trans hranking)
  have hkeys : p.sortedKeys = ranks.order.toList.filterMap fun id => p.keys[id.toNat]? := by
    simp only [Pool.sortedKeys, Pool.sorted, Pool.ranking, hranking, Result.ok_bind, Ranks.toRanking, Array.toList_map,
      List.filterMap_map, List.map_filterMap, pure, Except.pure, Function.comp_def, Option.map_map, Option.map_id']
  refine ⟨_, by rw [sorted, Arena.ranks, hranks]; rfl, hkeys ▸ (h.forall₂_filterMap ranks.order.toList).imp ?_⟩
  rintro ⟨k, code⟩ x ⟨hcode, hx, hR⟩
  exact ⟨(hp.wellFormed.ids_iff x _).mpr hx, Arena.key_eq (Option.isSome_iff_exists.mpr ⟨ranks, hranks⟩) hcode, hR⟩

variable [LawfulBEq α]

/-- An arena that codes a ranked pool ascends as the keys of the pool do. -/
theorem ascends (h : a.Codes R p) (hp : p.Ranked before) (hsize : a.size ≤ UInt32.size) {order : κ → κ → Prop}
    (horder : ∀ {k l x y}, R k x → R l y → x ∈ p.keys → y ∈ p.keys → before x y → order k l) : a.Ascends order := by
  obtain ⟨entries, hsorted, hentries⟩ := h.exists_sorted hp
  refine ⟨entries, { sorted := hsorted, key := fun e he => ?_, handles := ?_, indices := ?_ }, ?_⟩
  · obtain ⟨x, -, -, hkey, -⟩ := exists_mem_right hentries he
    exact hkey
  · have hids : entries.map (fun e => e.1.id.toNat) = p.sortedKeys.map fun x => (p.id? x).getD 0 :=
      map_eq_map_of_forall₂ hentries fun e x hx => by rw [hx.1, Option.getD_some]
    have hall : p.keys.toList.map (fun x => (p.id? x).getD 0) = List.range p.size := by
      refine List.ext_getElem (by simp [Pool.size]) fun i hi _ => ?_
      have hi : i < p.keys.size := by simpa using hi
      rw [List.getElem_map, List.getElem_range, Array.getElem_toList,
        show p.id? p.keys[i] = some i from (hp.wellFormed.ids_iff _ _).mpr (Array.getElem?_eq_getElem hi), Option.getD_some]
    rw [hids, h.size_eq, ← hall]
    exact hp.perm.map _
  · have hindices : entries.map (fun e => (a.index e.1).toNat) = p.sortedKeys.map p.place :=
      map_eq_map_of_forall₂ hentries fun e x hx => by
        rw [h.index_eq hx.1, hp.toNat_indexOrNone (h.size_eq ▸ hsize) (hx.1.mem hp.wellFormed)]
    rw [hindices, hp.map_place, h.size_eq]
  · have hascending : p.sortedKeys.Pairwise fun x y => x ∈ p.keys ∧ y ∈ p.keys ∧ before x y :=
      hp.ascending.imp_of_mem fun hx hy hxy => ⟨hp.mem_sortedKeys.mp hx, hp.mem_sortedKeys.mp hy, hxy⟩
    exact pairwise_of_forall₂ hentries hascending fun hx hy hxy => horder hx.2.2 hy.2.2 hxy.1 hxy.2.1 hxy.2.2

end Codes

end Arena

namespace Builder

namespace Arenas

/-- Every arena ascends, those of the file in the order that the format demands. -/
structure FormatOrder (a : Arenas) : Prop where
  strings : a.strings.Ascends fun s t => Utf16.encode s < Utf16.encode t
  types : a.types.Ascends fun k l => a.strings.index k.name < a.strings.index l.name
  typeLists : a.typeLists.Ascends fun k l => a.typeListRank k < a.typeListRank l
  protos : a.protos.Ascends fun k l => ∃ i j, a.protoRank k = .ok i ∧ a.protoRank l = .ok j ∧ i < j
  fields : a.fields.Ascends fun k l => a.fieldRank k < a.fieldRank l
  methods : a.methods.Ascends fun k l => a.methodRank k < a.methodRank l
  handles : a.handles.Ascends fun k l => a.handleRank k < a.handleRank l
  arrays : a.arrays.Ascends fun vs ws => Value.compareValues vs ws = .lt
  callSites : a.callSites.Ascends fun k l => a.arrays.index k.array < a.arrays.index l.array
  annotations : a.annotations.Ascends fun x y => compare x y = .lt
  annotationSets : a.annotationSets.Ascends fun k l => a.annotationSetRank k < a.annotationSetRank l

variable {a : Arenas} {p : Pools}

/-- Arenas that code ranked pools are in order: what the keys stand for is sorted as their
ranks are. -/
theorem Codes.formatOrder (h : Arenas.Codes p a p) (hr : p.Ranked) (hb : p.Bounded) (hc : p.Closed) :
    a.FormatOrder where
  strings := h.strings.ascends hr.strings (h.strings.size_eq ▸ hb.strings) fun {s t _ _} hs ht _ _ hlt => by
    subst hs ht
    rw [SortKey.compare_ofString] at hlt
    exact (compareLex_eq_lt Std.compare_eq_lt).mp hlt
  types := h.types.ascends hr.types (h.types.size_eq ▸ hb.types) fun hk hl hd he hlt => by
    rw [h.strings.index_eq hk, h.strings.index_eq hl]
    rw [← hr.compare_typeRank hb hc hd he, Pools.typeRank, Pools.typeRank, compareRanks_singleton] at hlt
    exact Std.compare_eq_lt.mp hlt
  typeLists := h.typeLists.ascends hr.typeLists (h.typeLists.size_eq ▸ hb.typeLists) fun hk hl hts hus hlt => by
    rw [typeListRank_eq h.types hk, typeListRank_eq h.types hl]
    have hcompare := hr.compare_typeListRank hb (fun _ hd => hc.types_of_typeList hts hd) fun _ hd =>
      hc.types_of_typeList hus hd
    exact compareRanks_eq_lt.mp (hcompare.trans hlt)
  protos := h.protos.ascends hr.protos (h.protos.size_eq ▸ hb.protos) fun hk hl hq hr' hlt => by
    have hsealed := h.typeLists.isSealed_eq.trans hr.typeLists.isFinalized
    exact ⟨_, _, protoRank_eq h.types h.typeLists hr.typeLists.wellFormed hsealed hk,
      protoRank_eq h.types h.typeLists hr.typeLists.wellFormed hsealed hl,
      compareRanks_eq_lt.mp ((hr.compare_protoRank hb hc hq hr').trans hlt)⟩
  fields := h.fields.ascends hr.fields (h.fields.size_eq ▸ hb.fields) fun hk hl hf hg hlt => by
    rw [fieldRank_eq h.strings h.types hk, fieldRank_eq h.strings h.types hl]
    exact compareRanks_eq_lt.mp ((hr.compare_fieldRank hb hc hf hg).trans hlt)
  methods := h.methods.ascends hr.methods (h.methods.size_eq ▸ hb.methods) fun hk hl hm hn hlt => by
    rw [methodRank_eq h.strings h.types h.protos hk, methodRank_eq h.strings h.types h.protos hl]
    exact compareRanks_eq_lt.mp ((hr.compare_methodRank hb hc hm hn).trans hlt)
  handles := h.handles.ascends hr.handles (h.handles.size_eq ▸ hb.handles) fun hk hl hx hy hlt => by
    rw [handleRank_eq h.fields h.methods hk, handleRank_eq h.fields h.methods hl]
    exact compareRanks_eq_lt.mp ((hr.compare_handleRank hb hc hx hy).trans hlt)
  arrays := h.arrays.ascends hr.arrays (h.arrays.size_eq ▸ hb.arrays) fun hvs hws _ _ hlt => by
    subst hvs hws
    exact hlt
  callSites := h.callSites.ascends hr.callSites (h.callSites.size_eq ▸ hb.callSites) fun hk hl hx hy hlt => by
    rw [h.arrays.index_eq hk, h.arrays.index_eq hl]
    rw [← hr.compare_callSiteRank hb hc hx hy, Pools.callSiteRank, Pools.callSiteRank, compareRanks_singleton] at hlt
    exact Std.compare_eq_lt.mp hlt
  annotations := h.annotations.ascends hr.annotations (h.annotations.size_eq ▸ hb.annotations) fun hx hy _ _ hlt => by
    subst hx hy
    exact hlt
  annotationSets :=
    h.annotationSets.ascends hr.annotationSets (h.annotationSets.size_eq ▸ hb.annotationSets) fun hk hl has hbs hlt => by
      rw [annotationSetRank_eq h.annotations hr.annotations hb.annotations hk,
        annotationSetRank_eq h.annotations hr.annotations hb.annotations hl]
      exact compareRanks_eq_lt.mp ((hr.compare_annotationSetRank hb hc has hbs).trans hlt)

end Arenas

/-! ## Finalizing after a history -/

/-- A history that asks for no more entries than there are handles gives each key a handle
of its own. -/
theorem bounded_gather (opcodes : Opcodes) (requests : List Assembly.Request)
    (h : (requests.flatMap Assembly.Request.entries).length ≤ UInt32.size) : (gather opcodes requests).arenas.Bounded := by
  have hpools := Assembly.bounded_gather opcodes h
  exact ((gathers_gather opcodes requests).2 (.inr hpools)).arenas.bounded_iff.mpr hpools

/-- As long as every key has a handle of its own, every history can be finalized. This keeps
the keys, gives those of each arena the indices from zero on, and puts them in the order
of the format. -/
theorem finalize_formatOrder (opcodes : Opcodes) (requests : List Assembly.Request)
    (hbounded : (gather opcodes requests).arenas.Bounded) :
    ∃ b, finalize.on (gather opcodes requests) = (.ok (), b) ∧
      Arenas.SameKeys (gather opcodes requests).arenas b.arenas ∧ b.arenas.FormatOrder := by
  obtain ⟨b, hfinalize, h⟩ := finalize_gather opcodes requests (.inl hbounded)
  have hgathered := Assembly.gathered_gather opcodes requests
  exact ⟨b, hfinalize, h.keys,
    h.gathers.arenas.formatOrder hgathered.growing.ranked_finalized h.bounded hgathered.closed.finalized⟩

/-- Two overloads and a field of one class, the greatest first. -/
def overloads : List Assembly.Request :=
  [.method ⟨"LA;", "run", ["J"], "V"⟩, .method ⟨"LA;", "run", [], "V"⟩, .field ⟨"LA;", "at", "J"⟩]

theorem finalize_formatOrder_overloads : (gather .standard overloads).arenas.Bounded ∧
    ∃ b, finalize.on (gather .standard overloads) = (.ok (), b) ∧
      Arenas.SameKeys (gather .standard overloads).arenas b.arenas ∧ b.arenas.FormatOrder :=
  have hbounded := bounded_gather .standard overloads (by decide)
  ⟨hbounded, finalize_formatOrder .standard overloads hbounded⟩

/-! ## More strings than handles -/

/-- Requests for the decimal numbers below a bound, as strings. -/
def numerals (bound : Nat) : List Assembly.Request :=
  (List.range bound).map fun n => .string (toString n)

/-- A string that is asked for is interned. -/
theorem after_string {b : Builder} (ho : b.arenas.Open) (s : String) :
    b.after (.string s) = { b with arenas.strings := (b.arenas.strings.ask (.intern s)).2 } := by
  obtain ⟨h, strings, hintern, -, -⟩ := Arena.exists_intern ho.strings s
  have hinterns : (interns (.string s)).on b.arenas = (.ok none, { b.arenas with strings }) := by
    rw [interns, ExceptT.on_map, internString, on_internIn b.arenas hintern]
    rfl
  rw [after_eq ho _ hinterns, Arena.ask, hintern]
  rfl

/-- A new builder that is asked for strings alone has interned these and nothing else. -/
theorem arenas_gather_strings (opcodes : Opcodes) (strings : List String) :
    (gather opcodes (strings.map .string)).arenas =
      { strings := ({ name := "string" } : Arena String).after (strings.map .intern) } := by
  induction strings using List.reverseRecOn with
  | nil => rfl
  | append_singleton strings s ih =>
    have hopen := (gathers_gather opcodes (strings.map .string)).1
    rw [List.map_append, gather, List.foldl_append, ← gather, List.map_append, Arena.after_append]
    show (after _ _).arenas = _
    rw [after_string hopen, ih]
    rfl

/-- When there are more strings than handles, some string has no index. -/
theorem not_formatOrder_numerals :
    ∃ b, finalize.on (gather .standard (numerals (UInt32.size + 1))) = (.ok (), b) ∧ ¬ b.arenas.FormatOrder := by
  have hrequests : numerals (UInt32.size + 1) = ((List.range (UInt32.size + 1)).map toString).map .string :=
    (List.map_map ..).symm
  have hnodup : ((List.range (UInt32.size + 1)).map toString).Nodup := List.nodup_range.map fun _ _ => Nat.repr_injective
  obtain ⟨hkeys, -, -⟩ := Arena.transcript_intern "string" hnodup
  have harenas := arenas_gather_strings .standard ((List.range (UInt32.size + 1)).map toString)
  have hopen := (gathers_gather .standard (numerals (UInt32.size + 1))).1
  rw [← hrequests] at harenas
  obtain ⟨arenas, hfinalize, hsame⟩ := Arenas.exists_finalize hopen (by simp [harenas])
  refine ⟨_, on_finalize hopen hfinalize, fun hformat => ?_⟩
  obtain ⟨entries, hlists, -⟩ := hformat.strings
  have hsize : arenas.strings.size = UInt32.size + 1 := by
    rw [Arena.size, hsame.strings, harenas, ← Array.length_toList, hkeys, List.length_map, List.length_range]
  have hle := hlists.size_le
  rw [hsize] at hle
  exact Nat.not_succ_le_self _ hle

end Builder

end Dalvik
