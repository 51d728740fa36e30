import Dalvik.Proofs.Assembly.InsertionOrder
import Dalvik.Proofs.Assembly.OtherFields
import Dalvik.Proofs.Builder.FormatOrder

/-!
# The order of requests to a builder

Handles are given out in the order of the requests, and the keys that hold them differ from
one order to another. As long as every key has a handle of its own the handles stand for the
same, though, so that the same requests in another order write the same file
(`write_perm`). When handles run out, keys that come late are lost from the file, and these
are others in another order (`not_write_perm_gridFields`).
-/

namespace Dalvik

/-- The numbers of the keys in order are those of all keys, in 32 bits. -/
theorem Arena.Ranks.sortedIds_perm {σ : Type} (cmp : σ → σ → Ordering) (sortKeys : List σ) :
    (sortedIds cmp sortKeys).Perm ((List.range sortKeys.length).map UInt32.ofNat) := by
  refine ((List.mergeSort_perm _ _).map _).trans (.of_eq ?_)
  rw [List.map_map, List.range_eq_range', ← List.zipIdx_map_snd 0 sortKeys, List.map_map]
  rfl

section places

variable {α : Type} (xs : List α)

/-- At the places that 32 bits have room for stand as many members as there are places. -/
theorem length_filterMap_ofNat :
    (((List.range xs.length).map UInt32.ofNat).filterMap fun id => xs[id.toNat]?).length = xs.length := by
  rw [List.filterMap_length_eq_length.mpr, List.length_map, List.length_range]
  intro id hid
  obtain ⟨place, hplace, rfl⟩ := List.mem_map.mp hid
  have hle : (UInt32.ofNat place).toNat ≤ place := by
    rw [UInt32.toNat_ofNat']
    exact Nat.mod_le _ _
  rw [List.getElem?_eq_getElem (Nat.lt_of_le_of_lt hle (List.mem_range.mp hplace))]
  rfl

theorem mem_filterMap_ofNat {x : α} :
    (x ∈ ((List.range xs.length).map UInt32.ofNat).filterMap fun id => xs[id.toNat]?) ↔
      ∃ place < UInt32.size, xs[place]? = some x := by
  rw [List.mem_filterMap]
  constructor
  · rintro ⟨id, -, hid⟩
    exact ⟨id.toNat, id.toNat_lt_size, hid⟩
  · rintro ⟨place, hplace, hx⟩
    have hlt := (List.getElem?_eq_some_iff.mp hx).1
    refine ⟨UInt32.ofNat place, List.mem_map.mpr ⟨place, List.mem_range.mpr hlt, rfl⟩, ?_⟩
    rwa [UInt32.toNat_ofNat_of_lt' hplace]

/-- The other way round the first member stands behind all places but one. -/
theorem reverse_getElem?_ne {xs : List α} (hnodup : xs.Nodup) {place : Nat} (hplace : place + 1 < xs.length) :
    xs.reverse[place]? ≠ some (xs.get ⟨0, Nat.lt_of_le_of_lt (Nat.zero_le _) hplace⟩) := by
  rw [List.getElem?_reverse (Nat.lt_of_succ_lt hplace)]
  intro hsame
  obtain ⟨hlt, hsame⟩ := List.getElem?_eq_some_iff.mp hsame
  have := (List.Nodup.getElem_inj_iff hnodup).mp hsame
  omega

end places

/-- A sealed arena lists as many keys as it has, and of these none but those at places that are
the numbers of handles. -/
theorem Arena.sortedKeys_spelled {κ α σ : Type} [BEq κ] [Hashable κ] [BEq α] [Hashable α] [LawfulBEq α] {a : Arena κ}
    {cmp : σ → σ → Ordering} {sortKeys : List σ} (hranks : a.ranks? = some (.ofSortKeys cmp sortKeys))
    {spell? : κ → Option α} {xs : List α} (hxs : a.keys.toList.filterMap spell? = xs) (hnodup : xs.Nodup)
    (hlength : sortKeys.length = xs.length) :
    (a.spelled spell?).size = xs.length ∧ (a.spelled spell?).sortedKeys.length = xs.length ∧
      ∀ x, x ∈ (a.spelled spell?).sortedKeys ↔ ∃ place < UInt32.size, xs[place]? = some x := by
  have hkeys : (a.spelled spell?).keys.toList = xs := by
    rw [spelled, hxs]
    exact (Pool.foldl_insert (Pool.growing_empty a.name) hnodup).2
  have hsorted : (a.spelled spell?).sortedKeys =
      (Ranks.sortedIds cmp sortKeys).filterMap fun id => xs[id.toNat]? := by
    have hranking : (a.spelled spell?).ranking? = some (Ranks.ofSortKeys cmp sortKeys).toRanking := by
      rw [spelled, hranks]
      rfl
    simp only [Pool.sortedKeys, Pool.sorted, Pool.ranking, hranking, Result.ok_bind, Ranks.toRanking, Ranks.ofSortKeys,
      Array.toList_map, List.filterMap_map, List.map_filterMap, pure, Except.pure, Function.comp_def, Option.map_map,
      Option.map_id', ← Array.getElem?_toList, hkeys]
  have hperm : (a.spelled spell?).sortedKeys.Perm
      (((List.range xs.length).map UInt32.ofNat).filterMap fun id => xs[id.toNat]?) := by
    rw [hsorted, ← hlength]
    exact (Ranks.sortedIds_perm cmp sortKeys).filterMap _
  refine ⟨?_, hperm.length_eq.trans (length_filterMap_ofNat xs), fun x => hperm.mem_iff.trans (mem_filterMap_ofNat xs)⟩
  rw [Pool.size, ← Array.length_toList, hkeys]

namespace Builder

open Assembly (Request)

/-- In whatever order the same requests come: as long as every key has a handle of its own and
no two requests add classes of one type, both orders can be finalized, and then the same bytes
are written or writing fails. -/
theorem write_perm (opcodes : Opcodes) {first second : List Request} (hperm : first.Perm second)
    (hdistinct : (Assembly.addedTypes first).Nodup) (hbounded : (gather opcodes first).arenas.Bounded) :
    ∃ a b, finalize.on (gather opcodes first) = (.ok (), a) ∧ finalize.on (gather opcodes second) = (.ok (), b) ∧
      Result.Agree a.write b.write := by
  have hpools := ((gathers_gather opcodes first).2 (.inl hbounded)).arenas.bounded_iff.mp hbounded
  obtain ⟨a, hfinalize, ha⟩ := finalize_gather opcodes first (.inl hbounded)
  obtain ⟨b, hfinalize', hb⟩ :=
    finalize_gather opcodes second (.inr (Assembly.bounded_of_perm opcodes hperm hdistinct hpools))
  refine ⟨a, b, hfinalize, hfinalize', ha.write.trans ?_⟩
  exact (Assembly.write_agree_of_perm opcodes hperm hdistinct).trans hb.write.symm

/-- Two classes, one of which extends the other, and a method, in two orders. -/
theorem write_perm_two_classes :
    let base := Request.classDef (ClassDef.make "LBase;" ⟨1⟩ (some "Ljava/lang/Object;") [] none [] [] []).view
    let derived := Request.classDef (ClassDef.make "LDerived;" ⟨1⟩ (some "LBase;") [] (some "D.java") [] [] []).view
    let call := Request.method ⟨"LBase;", "run", ["I"], "V"⟩
    ∃ a b, finalize.on (gather .standard [base, derived, call]) = (.ok (), a) ∧
      finalize.on (gather .standard [call, derived, base]) = (.ok (), b) ∧ Result.Agree a.write b.write :=
  write_perm .standard (List.reverse_perm [_, _, _]).symm (show ["LBase;", "LDerived;"].Nodup by decide)
    (bounded_gather .standard _ (by cbv))

/-! ## More fields than handles -/

section known

variable {a : Arenas} {p : Pools} (hstrings : a.strings.Codes Eq p.strings) (hp : p.WellFormed) (ho : a.Open)

include hstrings hp ho

/-- A string that is known keeps its handle, and nothing is interned. -/
theorem on_internString_of_names {h : Handle String} {s : String} (hs : h.Names p.strings s) :
    (internString s).on a = (.ok h, a) := by
  obtain ⟨code, hcode, rfl⟩ := hstrings.exists_getElem? hp.strings hs
  have hintern := hstrings.wellFormed.intern_of_getElem? ho.strings hcode
  rw [UInt32.ofNat_toNat] at hintern
  rw [internString, on_internIn a hintern]

variable (htypes : a.types.Codes (TypeKey.Codes p) p.types)

include htypes

theorem on_internType_of_names {h : Handle TypeKey} {d : String} (hd : h.Names p.types d) :
    (internType d).on a = (.ok h, a) := by
  obtain ⟨code, hcode, hname⟩ := htypes.exists_getElem? hp.types hd
  have hintern := htypes.wellFormed.intern_of_getElem? ho.types hcode
  rw [UInt32.ofNat_toNat] at hintern
  rw [internType, ExceptT.on_bind, on_internString_of_names hstrings hp ho hname]
  dsimp only
  rw [on_internIn a hintern]

/-- Of a field whose parts are known no more is interned than its key. -/
theorem on_internField_of_codes {key : FieldKey} {f : FieldSig} (hf : key.Codes p f) {h : Handle FieldKey}
    {fields : Arena FieldKey} (hintern : a.fields.intern key = .ok (h, fields)) :
    (internField f).on a = (.ok h, { a with fields }) := by
  rw [internField, ExceptT.on_bind, on_internType_of_names hstrings hp ho htypes hf.definingClass]
  dsimp only
  rw [ExceptT.on_bind, on_internString_of_names hstrings hp ho hf.name]
  dsimp only
  rw [ExceptT.on_bind, on_internType_of_names hstrings hp ho htypes hf.type]
  dsimp only
  rw [on_internIn a hintern]

end known

/-- A type that is asked for is interned with its descriptor. -/
theorem exists_after_type {b : Builder} (ho : b.arenas.Open) (d : String) : ∃ strings types,
    b.after (.type d) = { b with arenas.strings := strings, arenas.types := types } := by
  obtain ⟨h, strings, hstrings, -, -⟩ := Arena.exists_intern ho.strings d
  obtain ⟨k, types, htypes, -, -⟩ := Arena.exists_intern ho.types ⟨h⟩
  have hinterns : (interns (.type d)).on b.arenas = (.ok none, { b.arenas with strings, types }) := by
    rw [interns, ExceptT.on_map, internType, ExceptT.on_bind, internString, on_internIn b.arenas hstrings]
    dsimp only
    rw [on_internIn { b.arenas with strings } htypes]
    rfl
  refine ⟨strings, types, ?_⟩
  rw [after_eq ho _ hinterns]
  rfl

/-- A builder that is asked for types alone holds these and their descriptors. -/
theorem exists_gather_types (opcodes : Opcodes) (names : List String) : ∃ strings types,
    gather opcodes (names.map .type) = { opcodes, arenas := { strings, types } } := by
  induction names using List.reverseRecOn with
  | nil => exact ⟨_, _, rfl⟩
  | append_singleton names d ih =>
    obtain ⟨strings, types, hgather⟩ := ih
    have hopen := (gathers_gather opcodes (names.map .type)).1
    rw [hgather] at hopen
    obtain ⟨strings', types', hafter⟩ := exists_after_type (b := { opcodes, arenas := { strings, types } }) hopen d
    refine ⟨strings', types', ?_⟩
    rw [List.map_append, gather, List.foldl_append, ← gather, hgather]
    exact hafter

/-- Fields whose parts are known are added to them. -/
theorem gather_fields {opcodes : Opcodes} {requests : List Request} {b : Builder} {p : Pools}
    (hb : gather opcodes requests = b) (hstrings : b.arenas.strings.Codes Eq p.strings)
    (htypes : b.arenas.types.Codes (TypeKey.Codes p) p.types) (hp : p.WellFormed) {key : FieldSig → FieldKey}
    {fields : List FieldSig} (hfields : ∀ f ∈ fields, (key f).Codes p f) :
    gather opcodes (requests ++ fields.map .field) =
      { b with arenas.fields := b.arenas.fields.after (fields.map fun f => .intern (key f)) } := by
  induction fields using List.reverseRecOn with
  | nil =>
    rw [List.map_nil, List.append_nil]
    exact hb
  | append_singleton fields f ih =>
    have ih := ih fun f hf => hfields f (List.mem_append_left _ hf)
    have hopen := (gathers_gather opcodes (requests ++ fields.map .field)).1
    rw [ih] at hopen
    rw [List.map_append, ← List.append_assoc, gather, List.foldl_append, ← gather, ih, List.map_append, Arena.after_append]
    generalize b.arenas.fields.after (fields.map fun f => .intern (key f)) = known at hopen
    obtain ⟨h, more, hintern, -, -⟩ := Arena.exists_intern hopen.fields (key f)
    have hinterns : (interns (.field f)).on { b.arenas with fields := known } =
        (.ok none, { b.arenas with fields := more }) := by
      rw [interns, ExceptT.on_map, on_internField_of_codes (a := { b.arenas with fields := known }) hstrings hp hopen
        htypes (hfields f (List.mem_append_right _ (List.mem_singleton_self f))) hintern]
      rfl
    show after _ _ = _
    rw [after_eq hopen _ hinterns]
    show _ = { b with arenas.fields := (known.ask (.intern (key f))).2 }
    rw [Arena.ask, hintern]
    rfl

/-! ### Sealing and writing -/

/-- An arena without keys is sealed in one way. -/
theorem sealBy_of_empty {κ σ : Type} [BEq κ] [Hashable κ] {a : Arena κ} (hkeys : a.keys = #[])
    (cmp : σ → σ → Ordering) (f g : κ → Result σ) : a.sealBy cmp f = a.sealBy cmp g := by
  simp only [Arena.sealBy, hkeys, List.mapM_nil]

namespace Arenas

variable {a b : Arenas} {fields fields' : Arena FieldKey}

/-- Where there are no method handles, other fields change nothing but the indices of
fields. -/
theorem finalize_withFields (h : a.finalize = .ok b) (hhandles : a.handles.keys = #[])
    (hfields : fields.sealBy compareRanks (fun k => .ok (b.fieldRank k)) = .ok fields') :
    { a with fields }.finalize = .ok { b with fields := fields' } := by
  have h := finalize_eq_ok_iff.mp h
  refine finalize_eq_ok_iff.mpr { h with fields := hfields, handles := ?_ }
  exact (sealBy_of_empty hhandles compareRanks _ _).trans h.handles

theorem pools_withFields (hhandles : b.handles.keys = #[]) :
    { b with fields }.pools = { b.pools with fields := fields.spelled b.fieldOf? } := by
  have hspelled (spell? : MethodHandleKey → Option MethodHandle) :
      b.handles.spelled spell? = { name := b.handles.name, ranking? := b.handles.ranks?.map Arena.Ranks.toRanking } := by
    rw [Arena.spelled, hhandles]
    rfl
  have hsame : b.handles.spelled ({ b with fields } : Arenas).handleOf? = b.handles.spelled b.handleOf? := by
    rw [hspelled, hspelled]
  simp only [pools, hsame]
  rfl

end Arenas

/-- A file without classes is written as one with the fields that it lists. -/
theorem write_withFields (opcodes : Opcodes) {b : Arenas} (hfinalized : b.isFinalized = true)
    (hhandles : b.handles.keys = #[]) (fields : Arena FieldKey) : write { opcodes, arenas := { b with fields } } =
      (Blueprint.withFields ⟨opcodes, b.pools, []⟩ (fields.spelled b.fieldOf?)).write := by
  have harrange : arrange { b with fields } [] = [] := by simp [arrange]
  have hblueprint : blueprint { opcodes, arenas := { b with fields } } =
      Blueprint.withFields ⟨opcodes, b.pools, []⟩ (fields.spelled b.fieldOf?) := by
    show Blueprint.mk opcodes (Arenas.pools { b with fields }) ((arrange { b with fields } []).map _) = _
    rw [harrange, Arenas.pools_withFields hhandles]
    rfl
  rw [write, if_pos (show isFinalized { opcodes, arenas := { b with fields } } = true from hfinalized), hblueprint]

/-- What is made of some types alone: the arenas `a`, which code the pools `p`, and the sealed
arenas `b`. -/
structure OfTypes (opcodes : Opcodes) (names : List String) (a b : Arenas) (p : Pools) : Prop where
  gathers : gather opcodes (names.map .type) = { opcodes, arenas := a }
  fields : a.fields = { name := "field" }
  handles : a.handles.keys = #[]
  codes : Arenas.Codes p a p
  wellFormed : p.WellFormed
  bounded : p.Bounded
  finalizes : a.finalize = .ok b
  keys : Arenas.SameKeys a b
  isFinalized : b.isFinalized = true
  sealed : Arenas.Codes p.finalized b p.finalized
  ranked : p.finalized.Ranked
  closed : p.finalized.Closed
  has : ∀ e, p.Has e ↔ ∃ d ∈ names, e ∈ Entry.ofType d

theorem length_ofTypes_le {names : List String} (hfew : names.length ≤ 0x8000) :
    (names.flatMap Entry.ofType).length ≤ 0x10000 := by
  have hlength : (names.flatMap Entry.ofType).length = names.length * 2 := by
    simp [List.length_flatMap, Entry.ofType]
  omega

theorem exists_ofTypes (opcodes : Opcodes) {names : List String} (hfew : names.length ≤ 0x8000) :
    ∃ a b p, OfTypes opcodes names a b p := by
  have hlength : ((names.map Request.type).flatMap Request.entries).length ≤ UInt32.size := by
    rw [List.flatMap_map]
    exact Nat.le_trans (length_ofTypes_le hfew) (by decide)
  obtain ⟨strings, types, hgather⟩ := exists_gather_types opcodes names
  obtain ⟨hopen, hgathers⟩ := gathers_gather opcodes (names.map .type)
  have hbounded := Assembly.bounded_gather opcodes hlength
  have hcodes := (hgathers (.inr hbounded)).arenas
  rw [hgather] at hopen hcodes
  have hgathered := Assembly.gathered_gather opcodes (names.map .type)
  obtain ⟨b, hfinalize, hkeys, hfinalized, hsealed⟩ :=
    hcodes.finalize hopen (hcodes.bounded_iff.mpr hbounded) hgathered.growing hgathered.closed
  refine ⟨{ strings, types }, b, _, {
    gathers := hgather
    fields := rfl
    handles := rfl
    codes := hcodes
    wellFormed := hgathered.growing.wellFormed
    bounded := hbounded
    finalizes := hfinalize
    keys := hkeys
    isFinalized := hfinalized
    sealed := hsealed
    ranked := hgathered.growing.ranked_finalized
    closed := hgathered.closed.finalized
    has := fun e => ?_ }⟩
  have hdistinct : Assembly.addedTypes (names.map .type) = [] := by
    rw [Assembly.addedTypes, List.filterMap_map, List.map_eq_nil_iff, List.filterMap_eq_nil_iff]
    exact fun _ _ => rfl
  rw [Assembly.has_gather opcodes (hdistinct ▸ List.nodup_nil), List.flatMap_map, List.mem_flatMap]
  rfl

namespace OfTypes

variable {opcodes : Opcodes} {names : List String} {a b : Arenas} {p : Pools} (h : OfTypes opcodes names a b p)

include h

theorem ranked_pools : b.pools.Ranked :=
  Arenas.Codes.ranked_pools h.sealed h.ranked h.closed

theorem has_pools (e : Entry) : b.pools.Has e ↔ ∃ d ∈ names, e ∈ Entry.ofType d := by
  rw [Arenas.Codes.has_pools h.sealed h.ranked h.closed, Pools.has_finalized, h.has]

theorem fieldless : Blueprint.Fieldless ⟨opcodes, b.pools, []⟩ where
  classes := rfl
  arrays := List.eq_nil_iff_forall_not_mem.mpr fun vs hvs => by
    obtain ⟨d, -, he⟩ := (h.has_pools (.array vs)).mp (h.ranked_pools.arrays.mem_sortedKeys.mp hvs)
    simp [Entry.ofType] at he
  annotations := List.eq_nil_iff_forall_not_mem.mpr fun x hx => by
    obtain ⟨d, -, he⟩ := (h.has_pools (.annotationItem x)).mp (h.ranked_pools.annotations.mem_sortedKeys.mp hx)
    simp [Entry.ofType] at he
  handles := List.eq_nil_iff_forall_not_mem.mpr fun k hk => by
    obtain ⟨d, -, he⟩ := (h.has_pools (.handle k)).mp (h.ranked_pools.handles.mem_sortedKeys.mp hk)
    simp [Entry.ofType] at he

theorem closed_pools : b.pools.Closed :=
  Arenas.Codes.closed_pools h.sealed h.ranked h.closed

theorem settled : Blueprint.Settled ⟨opcodes, b.pools, []⟩ where
  ranked := h.ranked_pools
  closed := h.closed_pools
  has := fun _ hc => nomatch hc
  types := List.nodup_nil
  distinct := fun _ hc => nomatch hc

theorem demanded (hfew : names.length ≤ 0x8000) :
    Blueprint.Demanded ⟨opcodes, b.pools, []⟩ (names.flatMap Entry.ofType) :=
  have hlength := length_ofTypes_le hfew
  {
    has := fun e he => List.mem_flatMap.mpr ((h.has_pools e).mp he)
    types := Entry.narrow_of_length_le (fun _ _ => Entry.type.inj) hlength
    protos := Entry.narrow_of_length_le (fun _ _ => Entry.proto.inj) hlength
    fields := Entry.narrow_of_length_le (fun _ _ => Entry.field.inj) hlength
    methods := Entry.narrow_of_length_le (fun _ _ => Entry.method.inj) hlength
    sorted := fun _ hc => nomatch hc
    code := fun _ hc => nomatch hc }

/-- The field is made of some of the types. -/
theorem hasParts {f : FieldSig} (hf : f.definingClass ∈ names ∧ f.name ∈ names ∧ f.type ∈ names) : b.pools.HasParts f where
  definingClass := (h.has_pools _).mpr ⟨_, hf.1, by simp [Entry.ofType]⟩
  name := (h.has_pools _).mpr ⟨_, hf.2.1, by simp [Entry.ofType]⟩
  type := (h.has_pools _).mpr ⟨_, hf.2.2, by simp [Entry.ofType]⟩

theorem exists_key {f : FieldSig} (hf : f.definingClass ∈ names ∧ f.name ∈ names ∧ f.type ∈ names) :
    ∃ key : FieldKey, key.Codes p f := by
  have htype {d : String} (hd : d ∈ names) : d ∈ p.types.keys := (h.has (.type d)).mpr ⟨d, hd, by simp [Entry.ofType]⟩
  have hname : f.name ∈ p.strings.keys := (h.has (.string f.name)).mpr ⟨_, hf.2.1, by simp [Entry.ofType]⟩
  obtain ⟨definingClass, hclass⟩ := Handle.exists_names h.wellFormed.types h.bounded.types (htype hf.1)
  obtain ⟨name, hname⟩ := Handle.exists_names h.wellFormed.strings h.bounded.strings hname
  obtain ⟨type, htype⟩ := Handle.exists_names h.wellFormed.types h.bounded.types (htype hf.2.2)
  exact ⟨⟨definingClass, name, type⟩, hclass, hname, htype⟩

/-- A file with some fields lists as many as there are: none but those at places that are the
numbers of handles. -/
theorem exists_sealed {fields : List FieldSig} (hnodup : fields.Nodup) {key : FieldSig → FieldKey}
    (hkey : ∀ f ∈ fields, (key f).Codes p f) {known : Arena FieldKey} (hknown : known.keys.toList = fields.map key)
    (hopen : Arenas.Open { a with fields := known }) : ∃ (c : Builder) (pool : Pool FieldSig),
      finalize.on { opcodes, arenas := { a with fields := known } } = (.ok (), c) ∧
      c.write = (Blueprint.withFields ⟨opcodes, b.pools, []⟩ pool).write ∧ pool.size = fields.length ∧
      pool.sortedKeys.length = fields.length ∧
      ∀ f, f ∈ pool.sortedKeys ↔ ∃ place < UInt32.size, fields[place]? = some f := by
  let ranks := Arena.Ranks.ofSortKeys compareRanks (known.keys.toList.map b.fieldRank)
  have hsealed : known.sealBy compareRanks (fun k => .ok (b.fieldRank k)) = .ok { known with ranks? := some ranks } := by
    have hall := Result.mapM_ok (ε := Error) (l := known.keys.toList) (f := fun k => .ok (b.fieldRank k))
      (g := b.fieldRank) fun _ _ => rfl
    rw [Arena.sealBy, show known.isSealed = false from hopen.fields, if_neg Bool.false_ne_true, hall]
    rfl
  have hfinalize := Arenas.finalize_withFields h.finalizes h.handles hsealed
  have hspelled : known.keys.toList.filterMap b.fieldOf? = fields := by
    rw [hknown, List.filterMap_map]
    conv_rhs => rw [← List.filterMap_some (l := fields)]
    exact List.filterMap_congr fun f hf => Arenas.fieldOf?_eq h.sealed h.ranked.wellFormed
      ((hkey f hf).mono (Arenas.extends_finalized p))
  exact ⟨_, _, on_finalize hopen hfinalize, write_withFields opcodes h.isFinalized (h.keys.handles.trans h.handles) _,
    Arena.sortedKeys_spelled rfl hspelled hnodup (by rw [hknown, List.length_map, List.length_map])⟩

/-- Fields of these types are all gathered, and a file lists as many as there are: none but
those at places that are the numbers of handles. -/
theorem exists_finalize {fields : List FieldSig} (hnodup : fields.Nodup)
    (hparts : ∀ f ∈ fields, f.definingClass ∈ names ∧ f.name ∈ names ∧ f.type ∈ names) :
    ∃ (c : Builder) (pool : Pool FieldSig),
      finalize.on (gather opcodes (names.map .type ++ fields.map .field)) = (.ok (), c) ∧
      c.write = (Blueprint.withFields ⟨opcodes, b.pools, []⟩ pool).write ∧ pool.size = fields.length ∧
      pool.sortedKeys.length = fields.length ∧
      ∀ f, f ∈ pool.sortedKeys ↔ ∃ place < UInt32.size, fields[place]? = some f := by
  have hkey : ∀ f, ∃ key : FieldKey, f ∈ fields → key.Codes p f := fun f => by
    by_cases hf : f ∈ fields
    · exact (h.exists_key (hparts f hf)).imp fun _ hkey _ => hkey
    · exact ⟨⟨⟨0⟩, ⟨0⟩, ⟨0⟩⟩, fun h => absurd h hf⟩
  choose key hkey using hkey
  have hkeys : (fields.map key).Nodup := hnodup.map_on fun f hf g hg heq =>
    (biUnique_fieldKey h.wellFormed).2 (hkey f hf) (heq ▸ hkey g hg)
  have hgather := gather_fields h.gathers h.codes.strings h.codes.types h.wellFormed hkey
  have hopen := (gathers_gather opcodes (names.map .type ++ fields.map .field)).1
  dsimp only at hgather
  rw [h.fields] at hgather
  rw [hgather] at hopen ⊢
  have hknown := (Arena.transcript_intern "field" hkeys).1
  rw [List.map_map] at hknown
  exact h.exists_sealed hnodup hkey hknown hopen

/-- Identifiers can be had of fields of these types. -/
theorem exists_fieldIds (hfew : names.length ≤ 0x8000) {fields : List FieldSig}
    (hparts : ∀ f ∈ fields, f.definingClass ∈ names ∧ f.name ∈ names ∧ f.type ∈ names) :
    ∃ ids, fields.mapM (Blueprint.fieldId ⟨opcodes, b.pools, []⟩) = .ok ids ∧ ids.length = fields.length := by
  have htypes := h.settled.size_types (h.demanded hfew)
  obtain ⟨ids, hids⟩ := Result.exists_mapM fun f hf =>
    Blueprint.exists_fieldId (b := ⟨opcodes, b.pools, []⟩) h.ranked_pools htypes (h.hasParts (hparts f hf))
  exact ⟨ids, hids, (Result.forall₂_of_mapM hids).length_eq.symm⟩

theorem size_strings_le : b.pools.strings.size ≤ names.length :=
  h.ranked_pools.strings.wellFormed.size_le Function.injective_id fun s hs => by
    obtain ⟨d, hd, he⟩ := (h.has_pools (.string s)).mp hs
    obtain rfl : s = d := by simpa [Entry.ofType] using he
    exact hd

end OfTypes

/-- Where there is one field more than handles, the last that comes is not written; the other
way round it is the first one. -/
theorem not_agree_reverse (opcodes : Opcodes) {names : List String} (hfew : names.length ≤ 0x8000)
    {fields : List FieldSig} (hnodup : fields.Nodup)
    (hparts : ∀ f ∈ fields, f.definingClass ∈ names ∧ f.name ∈ names ∧ f.type ∈ names)
    (hlength : fields.length = UInt32.size + 1) :
    ∃ c d, finalize.on (gather opcodes (names.map .type ++ fields.map .field)) = (.ok (), c) ∧
      finalize.on (gather opcodes (names.map .type ++ fields.reverse.map .field)) = (.ok (), d) ∧
      ¬ Result.Agree c.write d.write := by
  obtain ⟨a, b, p, h⟩ := exists_ofTypes opcodes hfew
  obtain ⟨c, pool, hc, hwrite, hsize, hlisted, hmem⟩ := h.exists_finalize hnodup hparts
  obtain ⟨d, pool', hd, hwrite', hsize', hlisted', hmem'⟩ := h.exists_finalize (List.nodup_reverse.mpr hnodup)
    fun f hf => hparts f (List.mem_reverse.mp hf)
  rw [List.length_reverse] at hsize' hlisted'
  have hdemanded := h.demanded hfew
  have htypes := h.settled.size_types hdemanded
  have hstrings := Nat.le_trans (Nat.le_trans h.size_strings_le hfew) (by decide : 0x8000 ≤ UInt32.size)
  have hlistedParts : ∀ f ∈ pool.sortedKeys, f.definingClass ∈ names ∧ f.name ∈ names ∧ f.type ∈ names := fun f hf => by
    obtain ⟨place, -, hplace⟩ := (hmem f).mp hf
    exact hparts f (List.mem_of_getElem? hplace)
  have hlistedParts' : ∀ f ∈ pool'.sortedKeys, f.definingClass ∈ names ∧ f.name ∈ names ∧ f.type ∈ names := fun f hf => by
    obtain ⟨place, -, hplace⟩ := (hmem' f).mp hf
    exact hparts f (List.mem_reverse.mp (List.mem_of_getElem? hplace))
  obtain ⟨ids, hids, hcount⟩ := h.exists_fieldIds hfew hlistedParts
  obtain ⟨ids', hids', hcount'⟩ := h.exists_fieldIds hfew hlistedParts'
  refine ⟨c, d, hc, hd, ?_⟩
  rw [hwrite, hwrite']
  refine Blueprint.not_agree_withFields h.fieldless h.ranked_pools.listed (h.settled.succeeds_writeData hdemanded)
    (fun offsets => Blueprint.exists_writeIds h.ranked_pools h.closed_pools htypes (h.settled.size_protos hdemanded)
      (h.settled.size_fields hdemanded) (h.settled.size_methods hdemanded) offsets) hsize hsize' hids hids'
    (hcount.trans hlisted) (hcount'.trans hlisted') ?_
  -- The first field has an identifier in the first file, and none in the other.
  have hzero : 0 < fields.length := by rw [hlength]; exact Nat.succ_pos _
  have hfirst : fields[0] ∈ pool.sortedKeys := (hmem _).mpr ⟨0, by decide, List.getElem?_eq_getElem hzero⟩
  obtain ⟨id, hid, hof⟩ := exists_mem_right (Result.forall₂_of_mapM hids) hfirst
  rintro rfl
  obtain ⟨f, hf, hof'⟩ := Result.exists_of_mem_mapM hids' hid
  obtain rfl := Blueprint.eq_of_fieldId_eq h.ranked_pools htypes hstrings (h.hasParts (hlistedParts _ hfirst))
    (h.hasParts (hlistedParts' f hf)) hof hof'
  obtain ⟨place, hplace, hat⟩ := (hmem' _).mp hf
  exact reverse_getElem?_ne hnodup (hlength ▸ Nat.succ_lt_succ hplace) hat

/-- The decimal numbers below 2048. -/
def gridNames : List String :=
  (List.range 2048).map toString

/-- A field that is made of decimal numbers, by its number. -/
def gridField (n : Nat) : FieldSig :=
  ⟨toString (n / 4194304), toString (n / 2048 % 2048), toString (n % 2048)⟩

theorem gridField_injective : Function.Injective gridField := fun m n h => by
  have hclass := Nat.repr_injective (congrArg FieldSig.definingClass h)
  have hname := Nat.repr_injective (congrArg FieldSig.name h)
  have htype := Nat.repr_injective (congrArg FieldSig.type h)
  omega

theorem gridField_parts {n : Nat} (h : n < 2048 * 4194304) :
    (gridField n).definingClass ∈ gridNames ∧ (gridField n).name ∈ gridNames ∧ (gridField n).type ∈ gridNames := by
  have hmem {m : Nat} (h : m < 2048) : toString m ∈ gridNames := List.mem_map_of_mem (List.mem_range.mpr h)
  exact ⟨hmem (by omega), hmem (by omega), hmem (by omega)⟩

/-- The first of these fields. -/
def gridFields (count : Nat) : List FieldSig :=
  (List.range count).map gridField

/-- Requests for all types that these fields are made of, and then for fields. -/
def gridRequests (fields : List FieldSig) : List Request :=
  gridNames.map .type ++ fields.map .field

/-- The same requests, but with the fields the other way round, and another file is written:
there is one field more than handles. -/
theorem not_write_perm_gridFields :
    let fields := gridFields (UInt32.size + 1)
    (gridRequests fields).Perm (gridRequests fields.reverse) ∧ (Assembly.addedTypes (gridRequests fields)).Nodup ∧
      ∃ a b, finalize.on (gather .standard (gridRequests fields)) = (.ok (), a) ∧
        finalize.on (gather .standard (gridRequests fields.reverse)) = (.ok (), b) ∧ ¬ Result.Agree a.write b.write := by
  intro fields
  have hlength : fields.length = UInt32.size + 1 := (List.length_map _).trans List.length_range
  have hnames : gridNames.length ≤ 0x8000 := by
    rw [gridNames, List.length_map, List.length_range]
    decide
  have hfields : ∀ f ∈ fields, f.definingClass ∈ gridNames ∧ f.name ∈ gridNames ∧ f.type ∈ gridNames := fun f hf => by
    obtain ⟨n, hn, rfl⟩ := List.mem_map.mp hf
    exact gridField_parts (Nat.lt_trans (List.mem_range.mp hn) (by decide))
  have hdistinct : Assembly.addedTypes (gridRequests fields) = [] := by
    rw [Assembly.addedTypes, gridRequests, List.filterMap_append, List.filterMap_map, List.filterMap_map,
      List.map_eq_nil_iff, List.append_eq_nil_iff, List.filterMap_eq_nil_iff, List.filterMap_eq_nil_iff]
    exact ⟨fun _ _ => rfl, fun _ _ => rfl⟩
  refine ⟨(List.Perm.refl _).append (fields.reverse_perm.symm.map _), hdistinct ▸ List.nodup_nil, ?_⟩
  exact not_agree_reverse .standard hnames (List.nodup_range.map gridField_injective) hfields hlength

end Builder

end Dalvik
