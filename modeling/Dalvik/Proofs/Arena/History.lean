import Mathlib.Data.List.Induction
import Dalvik.Proofs.Arena

/-!
# The life of an arena

An arena is asked for one thing after the other; `Arena.ask` gives the answer and the
arena as it is then. What has become of a new arena is told by the transcript of requests
and answers (`Arena.consistent_after`): its keys are those that were interned, in the
order in which they came first, and each has its place as its handle. A request that fails
leaves the arena as it was. A handle has 32 bits: as long as no more keys have come than
there are handles, different keys have different handles, and once the arena is sealed
the indices rank them by the sort keys, and among equal ones by the handles
(`Arena.RankedBy`). The key after that gets the handle of the first one
(`Arena.same_handle_after_all`).
-/

namespace Dalvik.Arena

/-! ## Requests and answers -/

/-- What an arena is asked for. Sort keys may be of any type that has an order. -/
inductive Request (κ : Type) : Type 1 where
  | intern (key : κ)
  | sealBy {σ : Type} (compare : σ → σ → Ordering) (total : Std.TransCmp compare) (sortKey : κ → Result σ)
  | lookup (spell : κ → String) (key : κ)
  | key (h : Handle κ)
  | index (h : Handle κ)
  | offset (h : Handle κ)
  | setOffset (h : Handle κ) (offset : UInt32)
  | sorted

/-- What an arena answers. -/
inductive Answer (κ : Type) where
  | handle (h : Result (Handle κ))
  | key (key : Result κ)
  | number (number : UInt32)
  | outcome (outcome : Result Unit)
  | entries (entries : Result (List (Handle κ × κ)))

/-- The answer is a failure. -/
def Answer.Fails {κ : Type} : Answer κ → Prop
  | handle r => r.Fails
  | key r => r.Fails
  | number _ => False
  | outcome r => r.Fails
  | entries r => r.Fails

variable {κ : Type} [BEq κ] [Hashable κ]

/-- The arena that an operation makes, or the arena as it was if the operation fails. -/
def orKept (a : Arena κ) (r : Result (Arena κ)) : Arena κ :=
  match r with
  | .ok b => b
  | .error _ => a

/-- Answers a request, and gives the arena as it is then. -/
def ask (a : Arena κ) : Request κ → Answer κ × Arena κ
  | .intern key => (.handle ((a.intern key).map (·.1)), a.orKept ((a.intern key).map (·.2)))
  | .sealBy compare _ sortKey =>
    (.outcome ((a.sealBy compare sortKey).map fun _ => ()), a.orKept (a.sealBy compare sortKey))
  | .lookup spell key => (.handle (a.lookup spell key), a)
  | .key h => (.key (a.key h), a)
  | .index h => (.number (a.index h), a)
  | .offset h => (.number (a.offset h), a)
  | .setOffset h offset => (.outcome ((a.setOffset h offset).map fun _ => ()), a.orKept (a.setOffset h offset))
  | .sorted => (.entries a.sorted, a)

/-- The arena after some requests. -/
def after (a : Arena κ) (requests : List (Request κ)) : Arena κ :=
  requests.foldl (fun a r => (a.ask r).2) a

/-- Some requests with the answers to them. -/
def transcript (a : Arena κ) : List (Request κ) → List (Request κ × Answer κ)
  | [] => []
  | r :: requests => (r, (a.ask r).1) :: (a.ask r).2.transcript requests

theorem after_append (a : Arena κ) (requests later : List (Request κ)) :
    a.after (requests ++ later) = (a.after requests).after later :=
  List.foldl_append ..

theorem transcript_append (a : Arena κ) (requests later : List (Request κ)) :
    a.transcript (requests ++ later) = a.transcript requests ++ (a.after requests).transcript later := by
  induction requests generalizing a with
  | nil => rfl
  | cons r requests ih => exact congrArg ((r, (a.ask r).1) :: ·) (ih (a.ask r).2)

/-- A request that fails leaves the arena as it was. -/
theorem ask_of_fails {a : Arena κ} {r : Request κ} (h : (a.ask r).1.Fails) : (a.ask r).2 = a := by
  have hkept {β γ : Type} {result : Result β} {f : β → γ} {g : β → Arena κ} (h : Result.Fails (result.map f)) :
      a.orKept (result.map g) = a := by
    obtain ⟨e, he⟩ := h
    cases result with
    | ok b => cases he
    | error e => rfl
  have hkept' {β : Type} {result : Result (Arena κ)} {f : Arena κ → β} (h : Result.Fails (result.map f)) :
      a.orKept result = a := by
    obtain ⟨e, he⟩ := h
    cases result with
    | ok b => cases he
    | error e => rfl
  cases r with
  | intern key => exact hkept h
  | sealBy compare _ sortKey => exact hkept' h
  | setOffset h' offset => exact hkept' h
  | _ => rfl

/-- The keys that were interned, in the order in which they came. -/
def interned (told : List (Request κ × Answer κ)) : List κ :=
  told.filterMap fun
    | (.intern key, .handle (.ok _)) => some key
    | _ => none

/-! ## Sealed arenas -/

/-- The arena is sealed, and `place` is where the key of each handle stands in the order
of the sort keys. -/
structure RankedBy {σ : Type} (a : Arena κ) (cmp : σ → σ → Ordering) (sortKey : κ → Result σ) (place : Handle κ → Nat) :
    Prop where
  bijective : Set.BijOn place {h | h.id.toNat < a.size} (Set.Iio a.size)
  sortKeys : ∀ key ∈ a.keys, ∃ s, sortKey key = .ok s
  /-- Places ascend with the sort keys, and among equal ones with the handles. -/
  ascending : ∀ {h h' : Handle κ} {key key' : κ} {s s' : σ}, a.key h = .ok key → a.key h' = .ok key' →
    sortKey key = .ok s → sortKey key' = .ok s' →
      (place h < place h' ↔ cmp s s' = .lt ∨ cmp s s' = .eq ∧ h.id < h'.id)
  /-- The index of a handle is its place. -/
  index : ∀ h : Handle κ, h.id.toNat < a.size → (a.index h).toNat = place h
  key : ∀ {h : Handle κ} {key : κ}, a.key h = .ok key ↔ a.keys[h.id.toNat]? = some key
  lookup : ∀ {spell : κ → String} {key : κ} {h : Handle κ}, a.lookup spell key = .ok h ↔ a.keys[h.id.toNat]? = some key
  /-- The entries are those of all handles, each at its place. -/
  sorted : ∃ entries, a.sorted = .ok entries ∧ entries.length = a.size ∧
    ∀ {h : Handle κ} {key : κ}, a.key h = .ok key → entries[place h]? = some (h, key)
  /-- An offset is recorded for its own handle alone, and nothing else changes. -/
  setOffset : ∀ h : Handle κ, h.id.toNat < a.size → ∀ offset, ∃ b, a.setOffset h offset = .ok b ∧ b.size = a.size ∧
    b.key = a.key ∧ b.lookup = a.lookup ∧ b.index = a.index ∧ b.sorted = a.sorted ∧ b.offset h = offset ∧
    ∀ other ≠ h, b.offset other = a.offset other
  setOffset_fails : ∀ h : Handle κ, a.size ≤ h.id.toNat → ∀ offset, (a.setOffset h offset).Fails

/-- What sealing an arena leaves in it, whatever offsets have been recorded since. -/
structure Sealed {σ : Type} (a : Arena κ) (cmp : σ → σ → Ordering) (sortKey : κ → Result σ) (sortKeys : List σ) :
    Prop where
  mapM_eq : a.keys.toList.mapM sortKey = .ok sortKeys
  ranks?_eq : ∃ offsets : Array UInt32, offsets.size = a.size ∧ a.ranks? = some
    { order := (Ranks.sortedIds cmp sortKeys).toArray, indices := Ranks.indicesOf (Ranks.sortedIds cmp sortKeys)
      offsets }

section sealBy

variable {σ : Type} {cmp : σ → σ → Ordering} {sortKey : κ → Result σ} {a b : Arena κ}

theorem Ranks.length_sortedIds (cmp : σ → σ → Ordering) (sortKeys : List σ) :
    (sortedIds cmp sortKeys).length = sortKeys.length := by
  rw [sortedIds, List.length_map, List.length_mergeSort, List.length_map, List.length_zipIdx]

theorem sealed_of_sealBy (h : a.sealBy cmp sortKey = .ok b) :
    ∃ sortKeys, b.Sealed cmp sortKey sortKeys ∧ b.keys = a.keys ∧ b.ids = a.ids := by
  obtain ⟨-, sortKeys, hkeys, rfl⟩ := exists_of_sealBy h
  have hlength : a.keys.toList.length = sortKeys.length := (Result.forall₂_of_mapM hkeys).length_eq
  refine ⟨sortKeys, ⟨hkeys, _, ?_, rfl⟩, rfl, rfl⟩
  rw [Array.size_replicate, Ranks.length_sortedIds, ← hlength]
  rfl

/-- Sealing fails if the arena has been sealed before or if one of the keys has no sort
key. -/
theorem sealBy_fails_iff : (a.sealBy cmp sortKey).Fails ↔
    a.isSealed = true ∨ ∃ key ∈ a.keys, (sortKey key).Fails := by
  constructor
  · intro hfails
    by_contra hnot
    rw [not_or, not_exists] at hnot
    have hall : ∀ key ∈ a.keys, ∃ s, sortKey key = .ok s := fun key hkey => by
      cases hs : sortKey key with
      | ok s => exact ⟨s, rfl⟩
      | error e => exact absurd ⟨hkey, e, hs⟩ (hnot.2 key)
    obtain ⟨ranks, hsealed⟩ := exists_sealBy (by simpa using hnot.1) cmp hall
    obtain ⟨e, he⟩ := hfails
    rw [hsealed] at he
    cases he
  · rintro (hsealed | ⟨key, hkey, hfails⟩)
    · exact ⟨_, by rw [sealBy, if_pos hsealed]; rfl⟩
    · unfold sealBy
      split
      · exact ⟨_, rfl⟩
      · obtain ⟨e, he⟩ := Result.mapM_fails (Array.mem_toList_iff.mpr hkey) hfails
        exact ⟨_, by rw [he]; rfl⟩

end sealBy

namespace Sealed

variable {σ : Type} {cmp : σ → σ → Ordering} {sortKey : κ → Result σ} {sortKeys : List σ} {a : Arena κ}
  (h : a.Sealed cmp sortKey sortKeys)

include h

theorem length_eq : sortKeys.length = a.size :=
  (Result.forall₂_of_mapM h.mapM_eq).length_eq.symm

/-- The sort key at a place is that of the key there. -/
theorem getElem?_eq {place : Nat} {key : κ} {s : σ} (hkey : a.keys[place]? = some key) (hs : sortKey key = .ok s) :
    sortKeys[place]? = some s := by
  have hall := Result.forall₂_of_mapM h.mapM_eq
  obtain ⟨hplace, heq⟩ := List.getElem?_eq_some_iff.mp ((Array.getElem?_toList ..).trans hkey)
  have hat := hall.get hplace (hall.length_eq ▸ hplace)
  rw [List.get_eq_getElem, List.get_eq_getElem, heq, hs] at hat
  rw [Except.ok.inj hat, List.getElem?_eq_getElem]

/-- Recording an offset keeps an arena sealed as it is. -/
theorem exists_setOffset {k : Handle κ} (hk : k.id.toNat < a.size) (offset : UInt32) :
    ∃ b, a.setOffset k offset = .ok b ∧ b.Sealed cmp sortKey sortKeys ∧ b.keys = a.keys ∧ b.ids = a.ids ∧
      b.key = a.key ∧ b.lookup = a.lookup ∧ b.index = a.index ∧ b.sorted = a.sorted ∧ b.offset k = offset ∧
      ∀ other ≠ k, b.offset other = a.offset other := by
  obtain ⟨offsets, hsize, hranks⟩ := h.ranks?_eq
  obtain ⟨name, keys, ids, ranks?⟩ := a
  cases hranks
  refine ⟨_, if_pos hk, ⟨h.mapM_eq, _, by rwa [Array.size_setIfInBounds], rfl⟩, rfl, rfl, rfl, rfl, rfl, rfl, ?_,
    fun other hother => ?_⟩
  · simp only [Arena.offset]
    rw [Array.getElem?_setIfInBounds_self_of_lt (by omega)]
    rfl
  · simp only [Arena.offset]
    rw [Array.getElem?_setIfInBounds_ne fun heq => hother (congrArg Handle.mk (UInt32.toNat_inj.mp heq.symm))]

/-! ### The answers of a sealed arena -/

/-- A sealed arena has its answers at hand. -/
theorem exists_ranks : ∃ ranks, a.ranks? = some ranks ∧ a.ranks = .ok ranks ∧
    ranks.order = (Ranks.sortedIds cmp sortKeys).toArray ∧
    ranks.indices = Ranks.indicesOf (Ranks.sortedIds cmp sortKeys) := by
  obtain ⟨offsets, -, hranks⟩ := h.ranks?_eq
  exact ⟨_, hranks, by rw [ranks, hranks], rfl, rfl⟩

theorem key_eq_ok_iff {k : Handle κ} {key : κ} : a.key k = .ok key ↔ a.keys[k.id.toNat]? = some key := by
  obtain ⟨ranks, -, hranks, -⟩ := h.exists_ranks
  rw [Arena.key, hranks]
  cases a.keys[k.id.toNat]? with
  | none => exact iff_of_false (fun heq => by cases heq) (fun heq => by cases heq)
  | some key' =>
    exact ⟨fun heq => congrArg some (Except.ok.inj heq), fun heq => congrArg Except.ok (Option.some.inj heq)⟩

theorem lookup_eq_ok_iff (ha : a.WellFormed) (hsize : a.size ≤ UInt32.size) {spell : κ → String} {key : κ}
    {k : Handle κ} : a.lookup spell key = .ok k ↔ a.keys[k.id.toNat]? = some key := by
  obtain ⟨ranks, -, hranks, -⟩ := h.exists_ranks
  rw [← ha.ids_iff_getElem? hsize, Arena.lookup, hranks]
  cases a.ids[key]? with
  | none => exact iff_of_false (fun heq => by cases heq) (fun heq => by cases heq)
  | some id =>
    exact ⟨fun heq => congrArg (some ∘ Handle.id) (Except.ok.inj heq),
      fun heq => congrArg (Except.ok ∘ Handle.mk) (Option.some.inj heq)⟩

section ranked

variable [Std.TransCmp cmp] (hsize : a.size ≤ UInt32.size)

include hsize

/-- The numbers of the keys in order are those that a pool would give. -/
theorem sortedIds_eq : Ranks.sortedIds cmp sortKeys = (Ranking.sortedIds cmp sortKeys).map UInt32.ofNat :=
  Ranks.sortedIds_eq cmp (h.length_eq ▸ hsize)

/-- The index of a handle is its place in the order of the sort keys. -/
theorem toNat_index {k : Handle κ} (hk : k.id.toNat < a.size) :
    (a.index k).toNat = (Ranking.sortedIds cmp sortKeys).idxOf k.id.toNat := by
  obtain ⟨ranks, hranks, -, -, hindices⟩ := h.exists_ranks
  have hperm : (Ranking.sortedIds cmp sortKeys).Perm (List.range (Ranking.sortedIds cmp sortKeys).length) := by
    rw [Ranking.length_sortedIds]
    exact Ranking.sortedIds_perm cmp sortKeys
  have hfits : ∀ id ∈ Ranking.sortedIds cmp sortKeys, id < UInt32.size := fun id hid =>
    Nat.lt_of_lt_of_le ((Ranking.mem_sortedIds cmp).mp hid) (h.length_eq ▸ hsize)
  have hid : k.id.toNat < sortKeys.length := h.length_eq.symm ▸ hk
  have hplace := (Ranking.bijOn_idxOf_sortedIds cmp).mapsTo hid
  rw [Arena.index, hranks]
  dsimp only
  rw [hindices, h.sortedIds_eq hsize, Ranks.indicesOf_map hfits,
    Ranking.indicesOf_getElem? hperm (Ranking.sortedIds_getElem?_idxOf cmp hid)]
  exact UInt32.toNat_ofNat_of_lt' (Nat.lt_of_lt_of_le hplace (h.length_eq ▸ hsize))

/-- The entries are listed in the order of the sort keys. -/
theorem exists_sorted : ∃ entries, a.sorted = .ok entries ∧ entries.length = a.size ∧
    ∀ {k : Handle κ} {key : κ}, a.keys[k.id.toNat]? = some key →
      entries[(Ranking.sortedIds cmp sortKeys).idxOf k.id.toNat]? = some (k, key) := by
  obtain ⟨ranks, -, hranks, horder, -⟩ := h.exists_ranks
  have htoNat : ∀ id ∈ Ranking.sortedIds cmp sortKeys, (UInt32.ofNat id).toNat = id ∧ id < a.size := fun id hid => by
    have hlt : id < a.size := h.length_eq ▸ (Ranking.mem_sortedIds cmp).mp hid
    exact ⟨UInt32.toNat_ofNat_of_lt' (Nat.lt_of_lt_of_le hlt hsize), hlt⟩
  let entry (id : Nat) : Option (Handle κ × κ) := a.keys[(UInt32.ofNat id).toNat]?.map (⟨UInt32.ofNat id⟩, ·)
  have hentry : ∀ id ∈ Ranking.sortedIds cmp sortKeys, (entry id).isSome := fun id hid => by
    obtain ⟨heq, hlt⟩ := htoNat id hid
    simp only [entry, heq, Option.isSome_map, Array.getElem?_eq_getElem (show id < a.keys.size from hlt),
      Option.isSome_some]
  obtain ⟨entries, hentries⟩ : ∃ entries, (Ranking.sortedIds cmp sortKeys).filterMap entry = entries := ⟨_, rfl⟩
  have hlength : entries.length = (Ranking.sortedIds cmp sortKeys).length := by
    rw [← hentries]
    exact List.filterMap_length_eq_length.mpr hentry
  refine ⟨entries, ?_, by rw [hlength, Ranking.length_sortedIds, h.length_eq], fun {k key} hkey => ?_⟩
  · rw [Arena.sorted, hranks, ← hentries, Result.ok_bind, horder, h.sortedIds_eq hsize, List.toList_toArray,
      List.filterMap_map]
    rfl
  · have hid : k.id.toNat < sortKeys.length := h.length_eq ▸ (Array.getElem?_eq_some_iff.mp hkey).1
    have hplace := Ranking.sortedIds_getElem?_idxOf cmp hid
    have hlt : (Ranking.sortedIds cmp sortKeys).idxOf k.id.toNat < entries.length :=
      hlength ▸ (List.getElem?_eq_some_iff.mp hplace).1
    obtain ⟨e, hat⟩ : ∃ e, entries[(Ranking.sortedIds cmp sortKeys).idxOf k.id.toNat]? = some e :=
      ⟨_, List.getElem?_eq_getElem hlt⟩
    obtain ⟨id, hid', hentry'⟩ := Pool.filterMap_getElem? hentry (hentries ▸ hat)
    rw [Option.some.inj (hid'.symm.trans hplace)] at hentry'
    simp only [entry, UInt32.ofNat_toNat, hkey] at hentry'
    rw [hat, ← hentry']
    rfl

theorem rankedBy (ha : a.WellFormed) :
    a.RankedBy cmp sortKey fun k => (Ranking.sortedIds cmp sortKeys).idxOf k.id.toNat where
  bijective := by
    have hbij : Set.BijOn (fun id => (Ranking.sortedIds cmp sortKeys).idxOf id) (Set.Iio a.size) (Set.Iio a.size) :=
      h.length_eq ▸ Ranking.bijOn_idxOf_sortedIds cmp
    refine ⟨fun k hk => hbij.mapsTo hk, fun k hk k' hk' heq => ?_, fun place hplace => ?_⟩
    · exact congrArg Handle.mk (UInt32.toNat_inj.mp (hbij.injOn hk hk' heq))
    · obtain ⟨id, hid, heq⟩ := hbij.surjOn hplace
      have htoNat : (UInt32.ofNat id).toNat = id := UInt32.toNat_ofNat_of_lt' (Nat.lt_of_lt_of_le hid hsize)
      exact ⟨⟨UInt32.ofNat id⟩, by simpa [htoNat] using hid, by simpa [htoNat] using heq⟩
  sortKeys key hkey := by
    obtain ⟨s, -, hs⟩ := exists_mem_right (Result.forall₂_of_mapM h.mapM_eq) (Array.mem_toList_iff.mpr hkey)
    exact ⟨s, hs⟩
  ascending hkey hkey' hs hs' := by
    rw [UInt32.lt_iff_toNat_lt]
    exact Ranking.idxOf_sortedIds_lt_iff cmp (h.getElem?_eq (h.key_eq_ok_iff.mp hkey) hs)
      (h.getElem?_eq (h.key_eq_ok_iff.mp hkey') hs')
  index k hk := h.toNat_index hsize hk
  key := h.key_eq_ok_iff
  lookup := h.lookup_eq_ok_iff ha hsize
  sorted := by
    obtain ⟨entries, hsorted, hlength, hentry⟩ := h.exists_sorted hsize
    exact ⟨entries, hsorted, hlength, fun hkey => hentry (h.key_eq_ok_iff.mp hkey)⟩
  setOffset k hk offset := by
    obtain ⟨b, hb, -, hkeys, -, hrest⟩ := h.exists_setOffset hk offset
    exact ⟨b, hb, congrArg Array.size hkeys, hrest⟩
  setOffset_fails k hk offset := by
    obtain ⟨ranks, -, hranks, -⟩ := h.exists_ranks
    rw [Arena.setOffset, hranks]
    exact ⟨_, if_neg (Nat.not_lt.mpr hk)⟩

end ranked

end Sealed

/-! ## What requests keep -/

omit [BEq κ] [Hashable κ] in
theorem interned_append (told later : List (Request κ × Answer κ)) :
    interned (told ++ later) = interned told ++ interned later :=
  List.filterMap_append

theorem isSealed_of_ranks {a : Arena κ} {ranks : Ranks} (h : a.ranks = .ok ranks) : a.isSealed = true := by
  rw [isSealed]
  rw [Arena.ranks] at h
  cases hranks : a.ranks? with
  | some _ => rfl
  | none =>
    rw [hranks] at h
    cases h

/-- What the transcript of an arena says of the arena as it is. -/
structure Told (told : List (Request κ × Answer κ)) (a : Arena κ) : Prop where
  wellFormed : a.WellFormed
  keys : a.keys.toList = (interned told).eraseDups
  handle : ∀ {key : κ} {answer : Answer κ}, (.intern key, answer) ∈ told →
    answer.Fails ∨ ∃ place, answer = .handle (.ok ⟨UInt32.ofNat place⟩) ∧ a.keys[place]? = some key
  isSealed : a.isSealed = true → ∃ (σ : Type) (cmp : σ → σ → Ordering) (total : Std.TransCmp cmp)
    (sortKey : κ → Result σ) (sortKeys : List σ), (.sealBy cmp total sortKey, .outcome (.ok ())) ∈ told ∧
      a.Sealed cmp sortKey sortKeys

theorem told_nil (name : String) : Told [] ({ name } : Arena κ) where
  wellFormed := wellFormed_empty name
  keys := rfl
  handle h := nomatch h
  isSealed h := by cases h

namespace Told

variable {told : List (Request κ × Answer κ)} {a : Arena κ} (h : Told told a)

include h

/-- An answer that gives no handle of a key tells of the same keys. -/
theorem concat {r : Request κ} {answer : Answer κ} (hr : (∀ key, r ≠ .intern key) ∨ answer.Fails) :
    Told (told ++ [(r, answer)]) a where
  wellFormed := h.wellFormed
  keys := by
    have hnone : interned [(r, answer)] = [] := by
      cases r with
      | intern key =>
        cases answer with
        | handle result =>
          obtain ⟨e, rfl⟩ : result.Fails := hr.resolve_left fun hne => hne key rfl
          rfl
        | _ => rfl
      | _ => rfl
    rw [h.keys, interned_append, hnone, List.append_nil]
  handle hmem := by
    rcases List.mem_append.mp hmem with hmem | hmem
    · exact h.handle hmem
    · cases List.mem_singleton.mp hmem
      exact .inl (hr.resolve_left fun hne => hne _ rfl)
  isSealed hsealed := by
    obtain ⟨σ, cmp, total, sortKey, sortKeys, hmem, hsealed⟩ := h.isSealed hsealed
    exact ⟨σ, cmp, total, sortKey, sortKeys, List.mem_append_left _ hmem, hsealed⟩

/-- An arena with the same keys, sealed by a request that has been told of. -/
theorem sealed_as {σ : Type} {cmp : σ → σ → Ordering} {total : Std.TransCmp cmp} {sortKey : κ → Result σ}
    {sortKeys : List σ} (hmem : (.sealBy cmp total sortKey, .outcome (.ok ())) ∈ told) {b : Arena κ}
    (hb : b.Sealed cmp sortKey sortKeys) (hkeys : b.keys = a.keys) (hids : b.ids = a.ids) : Told told b where
  wellFormed := ⟨hkeys ▸ h.wellFormed.nodup, fun key id => by rw [hids, hkeys, h.wellFormed.ids_iff]⟩
  keys := by rw [hkeys, h.keys]
  handle hmem := by
    rw [hkeys]
    exact h.handle hmem
  isSealed _ := ⟨σ, cmp, total, sortKey, sortKeys, hmem, hb⟩

section lawful

variable [LawfulBEq κ]

/-- Interning a key that is there tells of the same keys. -/
theorem known (hopen : a.isSealed = false) {place : Nat} {key : κ} (hplace : a.keys[place]? = some key) :
    Told (told ++ [(.intern key, .handle (.ok ⟨UInt32.ofNat place⟩))]) a where
  wellFormed := h.wellFormed
  keys := by
    have hmem : key ∈ interned told := by
      rw [← List.mem_eraseDups, ← h.keys, Array.mem_toList_iff]
      exact Array.mem_of_getElem? hplace
    have hone : interned [((.intern key : Request κ), .handle (.ok ⟨UInt32.ofNat place⟩))] = [key] := rfl
    rw [interned_append, hone, List.eraseDups_append, ← h.keys, List.removeAll,
      List.filter_cons_of_neg (by simpa using hmem)]
    exact (List.append_nil _).symm
  handle hmem := by
    rcases List.mem_append.mp hmem with hmem | hmem
    · exact h.handle hmem
    · cases List.mem_singleton.mp hmem
      exact .inr ⟨place, rfl, hplace⟩
  isSealed hsealed := by
    rw [hopen] at hsealed
    cases hsealed

/-- Interning a new key tells of one key more. -/
theorem push (hopen : a.isSealed = false) {key : κ} (hkey : key ∉ a.keys) :
    Told (told ++ [(.intern key, .handle (.ok ⟨UInt32.ofNat a.size⟩))]) (a.push key) where
  wellFormed := h.wellFormed.push hkey
  keys := by
    have hmem : key ∉ interned told := by
      rwa [← List.mem_eraseDups, ← h.keys, Array.mem_toList_iff]
    have hone : interned [((.intern key : Request κ), .handle (.ok ⟨UInt32.ofNat a.size⟩))] = [key] := rfl
    rw [interned_append, hone, List.eraseDups_append, ← h.keys, List.removeAll,
      List.filter_cons_of_pos (by simpa using hmem), Arena.push, Array.toList_push]
    rfl
  handle hmem := by
    rcases List.mem_append.mp hmem with hmem | hmem
    · rcases h.handle hmem with hfails | ⟨place, hplace, hat⟩
      · exact .inl hfails
      · exact .inr ⟨place, hplace, getElem?_push hat⟩
    · cases List.mem_singleton.mp hmem
      exact .inr ⟨a.size, rfl, Array.getElem?_push_size⟩
  isSealed hsealed := by
    have hsealed : a.isSealed = true := hsealed
    rw [hopen] at hsealed
    cases hsealed

/-- The next request and its answer are told of too. -/
theorem ask (r : Request κ) : Told (told ++ [(r, (a.ask r).1)]) (a.ask r).2 := by
  cases r with
  | intern key =>
    rw [Arena.ask]
    cases hopen : a.isSealed with
    | true =>
      have hfails : a.intern key = .fail (.poolFinalized a.name) := if_pos hopen
      rw [hfails]
      exact h.concat (.inr ⟨_, rfl⟩)
    | false =>
      by_cases hkey : key ∈ a.keys
      · obtain ⟨place, hplace⟩ := Array.mem_iff_getElem?.mp hkey
        rw [h.wellFormed.intern_of_getElem? hopen hplace]
        exact h.known hopen hplace
      · rw [h.wellFormed.intern_of_notMem hopen hkey]
        exact h.push hopen hkey
  | sealBy cmp total sortKey =>
    rw [Arena.ask]
    cases hb : a.sealBy cmp sortKey with
    | error e => exact h.concat (.inr ⟨e, rfl⟩)
    | ok b =>
      obtain ⟨sortKeys, hsealed, hkeys, hids⟩ := sealed_of_sealBy hb
      have htold : Told (told ++ [(.sealBy cmp total sortKey, .outcome (.ok ()))]) a := h.concat (.inl nofun)
      exact htold.sealed_as (List.mem_append_right _ (List.mem_singleton_self _)) hsealed hkeys hids
  | setOffset k offset =>
    rw [Arena.ask]
    cases hb : a.setOffset k offset with
    | error e => exact h.concat (.inr ⟨e, rfl⟩)
    | ok b =>
      obtain ⟨ranks, hranks, hset⟩ := Result.bind_eq_ok hb
      have hk : k.id.toNat < a.size := by
        by_contra hnot
        rw [if_neg hnot] at hset
        cases hset
      obtain ⟨σ, cmp, total, sortKey, sortKeys, hmem, hsealed⟩ := h.isSealed (isSealed_of_ranks hranks)
      obtain ⟨b', hb', hsealed', hkeys, hids, -⟩ := hsealed.exists_setOffset hk offset
      obtain rfl : b' = b := Except.ok.inj (hb'.symm.trans hb)
      have htold : Told (told ++ [(.setOffset k offset, .outcome (.ok ()))]) a := h.concat (.inl nofun)
      exact htold.sealed_as (List.mem_append_left _ hmem) hsealed' hkeys hids
  | lookup spell key => exact h.concat (.inl nofun)
  | key k => exact h.concat (.inl nofun)
  | index k => exact h.concat (.inl nofun)
  | offset k => exact h.concat (.inl nofun)
  | sorted => exact h.concat (.inl nofun)

end lawful

end Told

/-- The transcript of a new arena tells of the arena as it is after any requests. -/
theorem told_after [LawfulBEq κ] (name : String) (requests : List (Request κ)) :
    Told (({ name } : Arena κ).transcript requests) (({ name } : Arena κ).after requests) := by
  induction requests using List.reverseRecOn with
  | nil => exact told_nil name
  | append_singleton requests r ih =>
    rw [transcript_append, after_append]
    exact ih.ask r

/-! ## The whole life -/

/-- What holds of an arena and of the transcript of how it came about. -/
structure Consistent (told : List (Request κ × Answer κ)) (a : Arena κ) : Prop where
  nodup : a.keys.toList.Nodup
  /-- The keys are in the order in which they came first. -/
  keys : a.keys.toList = (interned told).eraseDups
  /-- The handle of a key is its place, in 32 bits. -/
  handle : ∀ {key : κ} {answer : Answer κ}, (.intern key, answer) ∈ told →
    answer.Fails ∨ ∃ place, answer = .handle (.ok ⟨UInt32.ofNat place⟩) ∧ a.keys[place]? = some key
  /-- As long as every key has a handle of its own, handles tell keys apart. -/
  handle_eq_iff : a.size ≤ UInt32.size → ∀ {key key' : κ} {h h' : Handle κ}, (.intern key, .handle (.ok h)) ∈ told →
    (.intern key', .handle (.ok h')) ∈ told → (h = h' ↔ key = key')
  /-- A request that fails changes neither the arena nor what it answers later. -/
  unchanged : ∀ {r : Request κ}, (a.ask r).1.Fails → ∀ later, a.after (r :: later) = a.after later ∧
    a.transcript (r :: later) = (r, (a.ask r).1) :: a.transcript later
  intern_fails_iff : ∀ {key : κ}, (a.ask (.intern key)).1.Fails ↔ a.isSealed = true
  sealBy_fails_iff : ∀ {σ : Type} {cmp : σ → σ → Ordering} {total : Std.TransCmp cmp} {sortKey : κ → Result σ},
    (a.ask (.sealBy cmp total sortKey)).1.Fails ↔ a.isSealed = true ∨ ∃ key ∈ a.keys, (sortKey key).Fails
  /-- A sealed arena is ranked by the sort keys that it was sealed by. -/
  rankedBy : a.size ≤ UInt32.size → a.isSealed = true → ∃ (σ : Type) (cmp : σ → σ → Ordering)
    (total : Std.TransCmp cmp) (sortKey : κ → Result σ) (place : Handle κ → Nat),
      (.sealBy cmp total sortKey, .outcome (.ok ())) ∈ told ∧ a.RankedBy cmp sortKey place

theorem fails_map_iff {β γ : Type} {r : Result β} {f : β → γ} : Result.Fails (r.map f) ↔ r.Fails := by
  refine ⟨fun ⟨e, he⟩ => ?_, fun h => h.map f⟩
  cases r with
  | ok b => cases he
  | error e' => exact ⟨e', rfl⟩

theorem intern_fails_iff {a : Arena κ} {key : κ} : (a.intern key).Fails ↔ a.isSealed = true := by
  unfold intern
  split
  · exact ⟨fun _ => ‹_›, fun _ => ⟨_, rfl⟩⟩
  · refine ⟨fun ⟨e, he⟩ => ?_, fun h => absurd h ‹_›⟩
    split at he <;> cases he

/-- Whatever a new arena is asked for, in whatever order, its keys, handles, indices and
offsets stay consistent with each other and with what it has answered. -/
theorem consistent_after [LawfulBEq κ] (name : String) (requests : List (Request κ)) :
    Consistent (({ name } : Arena κ).transcript requests) (({ name } : Arena κ).after requests) := by
  have h := told_after name requests
  generalize ({ name } : Arena κ).after requests = a at h
  generalize ({ name } : Arena κ).transcript requests = told at h
  have hat (hsize : a.size ≤ UInt32.size) {key : κ} {k : Handle κ} (hmem : (.intern key, .handle (.ok k)) ∈ told) :
      a.keys[k.id.toNat]? = some key := by
    rcases h.handle hmem with ⟨e, he⟩ | ⟨place, hk, hat⟩
    · cases he
    · cases hk
      rwa [toNat_ofNat hsize hat]
  exact {
    nodup := h.wellFormed.nodup
    keys := h.keys
    handle := h.handle
    handle_eq_iff := fun hsize {key key' k k'} hmem hmem' => by
      constructor
      · rintro rfl
        exact Option.some.inj ((hat hsize hmem).symm.trans (hat hsize hmem'))
      · rintro rfl
        have hplace := h.wellFormed.place_inj (hat hsize hmem) (hat hsize hmem')
        exact congrArg Handle.mk (UInt32.toNat_inj.mp hplace)
    unchanged := fun {r} hfails later => by
      have hsame := ask_of_fails hfails
      exact ⟨by rw [after, List.foldl_cons, hsame]; rfl, by rw [transcript, hsame]⟩
    intern_fails_iff := fails_map_iff.trans intern_fails_iff
    sealBy_fails_iff := fails_map_iff.trans sealBy_fails_iff
    rankedBy := fun hsize hsealed => by
      obtain ⟨σ, cmp, total, sortKey, sortKeys, hmem, hsealed⟩ := h.isSealed hsealed
      exact ⟨σ, cmp, total, sortKey, _, hmem, hsealed.rankedBy hsize h.wellFormed⟩ }

/-- An arena that cannot be sealed at first takes one more key, is sealed then and takes no
more. -/
def sealedLate : List (Request Nat) :=
  [.intern 7, .intern 3, .intern 7, .sealBy compare (inferInstance : Std.TransOrd Nat) fun _ => .fail (.visibilityUnknown 9),
    .intern 5, .sealBy compare (inferInstance : Std.TransOrd Nat) .ok, .intern 9]

/-- The keys stay in the order in which they came, and the last one is refused. -/
theorem consistent_after_sealedLate :
    Consistent (({ name := "number" } : Arena Nat).transcript sealedLate)
        (({ name := "number" } : Arena Nat).after sealedLate) ∧
      (({ name := "number" } : Arena Nat).after sealedLate).keys = #[7, 3, 5] ∧
      [⟨0⟩, ⟨1⟩, ⟨2⟩].map (({ name := "number" } : Arena Nat).after sealedLate).index = [2, 0, 1] :=
  ⟨consistent_after "number" sealedLate, by cbv, by cbv⟩

/-! ## More keys than handles -/

/-- Distinct keys that a new arena is given are given their places as their handles. -/
theorem transcript_intern [LawfulBEq κ] (name : String) {keys : List κ} (hnodup : keys.Nodup) :
    (({ name } : Arena κ).after (keys.map .intern)).keys.toList = keys ∧
      (({ name } : Arena κ).after (keys.map .intern)).isSealed = false ∧
      ({ name } : Arena κ).transcript (keys.map .intern) =
        keys.zipIdx.map fun (key, place) => (.intern key, .handle (.ok ⟨UInt32.ofNat place⟩)) := by
  induction keys using List.reverseRecOn with
  | nil => exact ⟨rfl, rfl, rfl⟩
  | append_singleton keys key ih =>
    obtain ⟨hkeys, hopen, htold⟩ := ih hnodup.of_append_left
    have hwell := (told_after name (keys.map .intern)).wellFormed
    rw [List.map_append, after_append, transcript_append, htold]
    generalize ({ name } : Arena κ).after (keys.map .intern) = a at hkeys hopen hwell
    have hnew : key ∉ a.keys := by
      rw [← Array.mem_toList_iff, hkeys]
      exact fun hmem => (List.nodup_append.mp hnodup).2.2 key hmem key (List.mem_singleton_self key) rfl
    have hsize : a.size = keys.length := by rw [← hkeys, size, Array.length_toList]
    have hask : a.ask (.intern key) = (.handle (.ok ⟨UInt32.ofNat a.size⟩), a.push key) := by
      rw [ask, hwell.intern_of_notMem hopen hnew]
      rfl
    refine ⟨?_, ?_, ?_⟩
    · simp only [List.map_cons, List.map_nil, after, List.foldl_cons, List.foldl_nil, hask, push, Array.toList_push, hkeys]
    · simp only [List.map_cons, List.map_nil, after, List.foldl_cons, List.foldl_nil, hask]
      exact hopen
    · simp only [List.map_cons, List.map_nil, transcript, hask, List.zipIdx_append, List.map_append, hsize,
        List.zipIdx_cons, List.zipIdx_nil, Nat.zero_add]

/-- Requests to intern the numbers below a bound, in order. -/
def counting (bound : Nat) : List (Request Nat) :=
  (List.range bound).map .intern

theorem mem_transcript_counting {bound n : Nat} (h : n < bound) :
    (.intern n, .handle (.ok ⟨UInt32.ofNat n⟩)) ∈ ({ name := "number" } : Arena Nat).transcript (counting bound) := by
  rw [counting, (transcript_intern "number" List.nodup_range).2.2, List.mem_map]
  exact ⟨(n, n), List.mem_zipIdx_iff_getElem?.mpr (List.getElem?_range h), rfl⟩

/-- When all handles have been given out, the next key gets the handle of the first one. -/
theorem same_handle_after_all :
    (.intern 0, .handle (.ok ⟨0⟩)) ∈ ({ name := "number" } : Arena Nat).transcript (counting (UInt32.size + 1)) ∧
      (.intern UInt32.size, .handle (.ok ⟨0⟩)) ∈
        ({ name := "number" } : Arena Nat).transcript (counting (UInt32.size + 1)) := by
  have hlast := mem_transcript_counting (Nat.lt_succ_self UInt32.size)
  have hwraps : UInt32.ofNat UInt32.size = 0 := by decide
  rw [hwraps] at hlast
  exact ⟨mem_transcript_counting (Nat.succ_pos _), hlast⟩

end Dalvik.Arena
