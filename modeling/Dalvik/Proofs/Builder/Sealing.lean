import Dalvik.Proofs.Builder.Making

/-!
# Sealing is finalizing

The rank of a key is that of the entry that it stands for, as soon as the arenas of its
parts are sealed (`Arenas.typeRank_eq` and so on). So each arena is sealed in the order in
which its pool is finalized, and afterwards the arenas code the finalized pools
(`Arenas.Codes.finalize`).
-/

namespace Dalvik

namespace Arena.Codes

variable {κ α : Type} [BEq κ] [Hashable κ] [BEq α] [Hashable α] {R : κ → α → Prop} {a : Arena κ} {p : Pool α}

/-- A sealed arena tells the code of what a handle stands for. -/
theorem exists_key (h : a.Codes R p) (hp : p.WellFormed) (hsealed : a.isSealed = true) {k : Handle κ} {x : α}
    (hx : k.Names p x) : ∃ code, a.key k = .ok code ∧ R code x := by
  obtain ⟨code, hcode, hR⟩ := h.exists_getElem? hp hx
  exact ⟨code, Arena.key_eq hsealed hcode, hR⟩

/-- Handles, one by one, have the indices of what they stand for. -/
theorem map_index_eq (h : a.Codes R p) {ks : List (Handle κ)} {xs : List α}
    (hall : List.Forall₂ (fun k x => k.Names p x) ks xs) : ks.map a.index = xs.map p.indexOrNone :=
  map_eq_map_of_forall₂ hall fun _ _ => h.index_eq

end Arena.Codes

namespace Builder

namespace Arenas

variable {a : Arenas} {p : Pools}

/-! ## Ranks -/

section ranks

variable (hstrings : a.strings.Codes Eq p.strings) (htypes : a.types.Codes (TypeKey.Codes p) p.types)

include hstrings in
theorem typeRank_eq {k : TypeKey} {d : String} (hk : k.Codes p d) : a.typeRank k = p.typeRank d :=
  congrArg (fun i => [i]) (hstrings.index_eq hk)

include htypes in
theorem typeListRank_eq {k : TypeListKey} {ts : List String} (hk : k.Codes p ts) :
    a.typeListRank k = p.typeListRank ts :=
  htypes.map_index_eq hk.2

include htypes in
theorem parameterRank_eq (hlists : a.typeLists.Codes (TypeListKey.Codes p) p.typeLists) (hp : p.typeLists.WellFormed)
    (hsealed : a.typeLists.isSealed = true) {k : Option (Handle TypeListKey)} {ts : List String}
    (hk : TypeListCode p k ts) : a.parameterRank k = .ok (p.typeListRank ts) := by
  cases k with
  | none =>
    obtain rfl : ts = [] := not_not.mp hk
    rfl
  | some h =>
    obtain ⟨list, hlist, hcodes⟩ := hlists.exists_key hp hsealed hk.2
    rw [parameterRank, hlist, ← typeListRank_eq htypes hcodes]
    rfl

include htypes in
theorem protoRank_eq (hlists : a.typeLists.Codes (TypeListKey.Codes p) p.typeLists) (hp : p.typeLists.WellFormed)
    (hsealed : a.typeLists.isSealed = true) {k : ProtoKey} {q : Prototype} (hk : k.Codes p q) :
    a.protoRank k = .ok (p.protoRank q) := by
  rw [protoRank, parameterRank_eq htypes hlists hp hsealed hk.parameters, htypes.index_eq hk.returnType]
  rfl

include hstrings htypes in
theorem fieldRank_eq {k : FieldKey} {f : FieldSig} (hk : k.Codes p f) : a.fieldRank k = p.fieldRank f := by
  rw [fieldRank, htypes.index_eq hk.definingClass, hstrings.index_eq hk.name, htypes.index_eq hk.type]
  rfl

include hstrings htypes in
theorem methodRank_eq (hprotos : a.protos.Codes (ProtoKey.Codes p) p.protos) {k : MethodKey} {m : MethodSig}
    (hk : k.Codes p m) : a.methodRank k = p.methodRank m := by
  rw [methodRank, htypes.index_eq hk.definingClass, hstrings.index_eq hk.name, hprotos.index_eq hk.proto]
  rfl

theorem memberIndex_eq (hfields : a.fields.Codes (FieldKey.Codes p) p.fields)
    (hmethods : a.methods.Codes (MethodKey.Codes p) p.methods) {k : MemberKey} {m : HandleMember} (hk : k.Codes p m) :
    a.memberIndex k = p.memberIndex m := by
  cases k <;> cases m <;> first | exact hfields.index_eq hk | exact hmethods.index_eq hk | exact hk.elim

theorem handleRank_eq (hfields : a.fields.Codes (FieldKey.Codes p) p.fields)
    (hmethods : a.methods.Codes (MethodKey.Codes p) p.methods) {k : MethodHandleKey} {h : MethodHandle}
    (hk : k.Codes p h) : a.handleRank k = p.handleRank h := by
  rw [handleRank, hk.kind, memberIndex_eq hfields hmethods hk.member]
  rfl

theorem callSiteRank_eq (harrays : a.arrays.Codes Eq p.arrays) {k : CallSiteKey} {c : CallSite} (hk : k.Codes p c) :
    a.callSiteRank k = p.callSiteRank c :=
  congrArg (fun i => [i]) (harrays.index_eq hk)

/-- The indices of the annotations of a set, put in order, are those of the set in order. -/
theorem annotationSetRank_eq (hannotations : a.annotations.Codes Eq p.annotations)
    (hp : p.annotations.Ranked fun a b => compare a b = .lt) (hsize : p.annotations.size ≤ UInt32.size)
    {k : AnnotationSetKey} {as : List AnnotationItem} (hk : k.Codes p as) :
    a.annotationSetRank k = p.annotationSetRank as := by
  have hmem : ∀ b ∈ as, b ∈ p.annotations.keys := fun b hb => by
    obtain ⟨h, -, hnames⟩ := hk.complete b hb
    exact hnames.mem hp.wellFormed
  have hlt : (as.map p.annotations.indexOrNone).Pairwise fun i j => compare i j = .lt := by
    rw [List.pairwise_map]
    refine hk.proper.2.imp_of_mem fun {b c} hb hc hbc => ?_
    rw [hp.compare_indexOrNone hsize id (hmem b hb) (hmem c hc)]
    exact hbc
  have hnodup : (k.annotations.map a.annotations.index).Nodup := by
    -- Different handles stand for different annotations.
    refine List.Nodup.map_on (fun h hh h' hh' heq => ?_) (hk.ascending.imp ne_of_compare_eq_lt)
    obtain ⟨b, hb, hnames⟩ := hk.named h hh
    obtain ⟨c, hc, hnames'⟩ := hk.named h' hh'
    rw [hannotations.index_eq hnames, hannotations.index_eq hnames'] at heq
    obtain rfl := hp.indexOrNone_inj hsize (hmem b hb) (hmem c hc) heq
    exact hnames.left_inj hnames'
  have hindices : (k.annotations.map a.annotations.index).Perm (as.map p.annotations.indexOrNone) := by
    refine (List.perm_ext_iff_of_nodup hnodup (hlt.imp ne_of_compare_eq_lt)).mpr fun i => ?_
    simp only [List.mem_map]
    constructor
    · rintro ⟨h, hh, rfl⟩
      obtain ⟨b, hb, hnames⟩ := hk.named h hh
      exact ⟨b, hb, (hannotations.index_eq hnames).symm⟩
    · rintro ⟨b, hb, rfl⟩
      obtain ⟨h, hh, hnames⟩ := hk.complete b hb
      exact ⟨h, hh, hannotations.index_eq hnames⟩
  have hsorted : (as.map p.annotations.indexOrNone).Pairwise (· ≤ ·) :=
    hlt.imp fun h => UInt32.le_of_lt (Std.compare_eq_lt.mp h)
  rw [annotationSetRank, Pools.annotationSetRank]
  refine ((List.mergeSort_perm _ _).trans hindices).eq_of_pairwise (fun i j _ _ => UInt32.le_antisymm) ?_ hsorted
  refine (List.pairwise_mergeSort (fun i j l hij hjl => ?_) (fun i j => ?_) _).imp of_decide_eq_true
  · exact decide_eq_true (UInt32.le_trans (of_decide_eq_true hij) (of_decide_eq_true hjl))
  · simpa using UInt32.le_total i j

end ranks

/-! ## Sealing -/

/-- The keys of the arenas are the same. -/
structure SameKeys (a b : Arenas) : Prop where
  strings : b.strings.keys = a.strings.keys
  types : b.types.keys = a.types.keys
  typeLists : b.typeLists.keys = a.typeLists.keys
  protos : b.protos.keys = a.protos.keys
  fields : b.fields.keys = a.fields.keys
  methods : b.methods.keys = a.methods.keys
  handles : b.handles.keys = a.handles.keys
  arrays : b.arrays.keys = a.arrays.keys
  callSites : b.callSites.keys = a.callSites.keys
  annotations : b.annotations.keys = a.annotations.keys
  annotationSets : b.annotationSets.keys = a.annotationSets.keys

/-- Each arena of the second is that of the first, sealed by the ranks that its keys have in the
second. -/
structure Seals (a b : Arenas) : Prop where
  strings : a.strings.sealBy (List.compareLex compare) (fun s => .ok (Utf16.encode s)) = .ok b.strings
  types : a.types.sealBy compareRanks (fun k => .ok (b.typeRank k)) = .ok b.types
  typeLists : a.typeLists.sealBy compareRanks (fun k => .ok (b.typeListRank k)) = .ok b.typeLists
  protos : a.protos.sealBy compareRanks b.protoRank = .ok b.protos
  fields : a.fields.sealBy compareRanks (fun k => .ok (b.fieldRank k)) = .ok b.fields
  methods : a.methods.sealBy compareRanks (fun k => .ok (b.methodRank k)) = .ok b.methods
  handles : a.handles.sealBy compareRanks (fun k => .ok (b.handleRank k)) = .ok b.handles
  arrays : a.arrays.sealBy Value.compareValues .ok = .ok b.arrays
  callSites : a.callSites.sealBy compareRanks (fun k => .ok (b.callSiteRank k)) = .ok b.callSites
  annotations : a.annotations.sealBy compare .ok = .ok b.annotations
  annotationSets : a.annotationSets.sealBy compareRanks (fun k => .ok (b.annotationSetRank k)) = .ok b.annotationSets

/-- Finalizing seals each arena by ranks that the sealing of later ones leaves as they are. -/
theorem finalize_eq_ok_iff {b : Arenas} : a.finalize = .ok b ↔ a.Seals b := by
  have hbind {α β : Type} {r : Result α} {f : α → Result β} {v : β} :
      r >>= f = .ok v ↔ ∃ x, r = .ok x ∧ f x = .ok v :=
    ⟨Result.bind_eq_ok, fun ⟨_, hr, hf⟩ => Result.bind_of_eq_ok hr hf⟩
  simp only [finalize, hbind, Result.pure_eq_ok, Except.ok.injEq]
  constructor
  · rintro ⟨_, strings, _, types, _, typeLists, _, protos, _, fields, _, methods, _, handles, _, arrays, _, callSites,
      _, annotations, _, annotationSets, rfl⟩
    exact ⟨strings, types, typeLists, protos, fields, methods, handles, arrays, callSites, annotations, annotationSets⟩
  · intro h
    exact ⟨_, h.strings, _, h.types, _, h.typeLists, _, h.protos, _, h.fields, _, h.methods, _, h.handles, _, h.arrays,
      _, h.callSites, _, h.annotations, _, h.annotationSets, rfl⟩

/-- Arenas can be sealed, however many keys they hold, if the lists of types that prototypes name are
there: every other key has a rank anyway. -/
theorem exists_finalize (ho : a.Open)
    (hlists : ∀ k ∈ a.protos.keys, ∀ h ∈ k.parameters, ∃ list, a.typeLists.keys[h.id.toNat]? = some list) :
    ∃ b, a.finalize = .ok b ∧ SameKeys a b := by
  have hrank {κ σ : Type} [BEq κ] [Hashable κ] {arena : Arena κ} (rank : κ → σ) :
      ∀ key ∈ arena.keys, ∃ s, (.ok (rank key) : Result σ) = .ok s := fun _ _ => ⟨_, rfl⟩
  obtain ⟨r, hstrings⟩ := Arena.exists_sealBy ho.strings (List.compareLex compare) (hrank Utf16.encode)
  let a₁ : Arenas := { a with strings := { a.strings with ranks? := some r } }
  obtain ⟨r, htypes⟩ := Arena.exists_sealBy ho.types compareRanks (hrank a₁.typeRank)
  let a₂ : Arenas := { a₁ with types := { a.types with ranks? := some r } }
  obtain ⟨r, htypeLists⟩ := Arena.exists_sealBy ho.typeLists compareRanks (hrank a₂.typeListRank)
  let a₃ : Arenas := { a₂ with typeLists := { a.typeLists with ranks? := some r } }
  have hproto : ∀ k ∈ a.protos.keys, ∃ rank, a₃.protoRank k = .ok rank := fun k hk => by
    rw [protoRank]
    cases hparameters : k.parameters with
    | none => exact ⟨_, rfl⟩
    | some h =>
      obtain ⟨list, hlist⟩ := hlists k hk h hparameters
      rw [parameterRank, Arena.key_eq (a := a₃.typeLists) rfl hlist]
      exact ⟨_, rfl⟩
  obtain ⟨r, hprotos⟩ := Arena.exists_sealBy ho.protos compareRanks hproto
  let a₄ : Arenas := { a₃ with protos := { a.protos with ranks? := some r } }
  obtain ⟨r, hfields⟩ := Arena.exists_sealBy ho.fields compareRanks (hrank a₄.fieldRank)
  let a₅ : Arenas := { a₄ with fields := { a.fields with ranks? := some r } }
  obtain ⟨r, hmethods⟩ := Arena.exists_sealBy ho.methods compareRanks (hrank a₅.methodRank)
  let a₆ : Arenas := { a₅ with methods := { a.methods with ranks? := some r } }
  obtain ⟨r, hhandles⟩ := Arena.exists_sealBy ho.handles compareRanks (hrank a₆.handleRank)
  let a₇ : Arenas := { a₆ with handles := { a.handles with ranks? := some r } }
  obtain ⟨r, harrays⟩ := Arena.exists_sealBy ho.arrays Value.compareValues (hrank id)
  let a₈ : Arenas := { a₇ with arrays := { a.arrays with ranks? := some r } }
  obtain ⟨r, hcallSites⟩ := Arena.exists_sealBy ho.callSites compareRanks (hrank a₈.callSiteRank)
  let a₉ : Arenas := { a₈ with callSites := { a.callSites with ranks? := some r } }
  obtain ⟨r, hannotations⟩ := Arena.exists_sealBy ho.annotations compare (hrank id)
  let a₁₀ : Arenas := { a₉ with annotations := { a.annotations with ranks? := some r } }
  obtain ⟨r, hsets⟩ := Arena.exists_sealBy ho.annotationSets compareRanks (hrank a₁₀.annotationSetRank)
  exact ⟨{ a₁₀ with annotationSets := { a.annotationSets with ranks? := some r } },
    finalize_eq_ok_iff.mpr ⟨hstrings, htypes, htypeLists, hprotos, hfields, hmethods, hhandles, harrays, hcallSites,
      hannotations, hsets⟩, ⟨rfl, rfl, rfl, rfl, rfl, rfl, rfl, rfl, rfl, rfl, rfl⟩⟩

theorem Codes.bounded_iff {q : Pools} (h : Arenas.Codes q a p) : a.Bounded ↔ p.Bounded := by
  constructor <;> exact fun hb => {
    strings := h.strings.size_eq ▸ hb.strings
    types := h.types.size_eq ▸ hb.types
    typeLists := h.typeLists.size_eq ▸ hb.typeLists
    protos := h.protos.size_eq ▸ hb.protos
    fields := h.fields.size_eq ▸ hb.fields
    methods := h.methods.size_eq ▸ hb.methods
    handles := h.handles.size_eq ▸ hb.handles
    arrays := h.arrays.size_eq ▸ hb.arrays
    callSites := h.callSites.size_eq ▸ hb.callSites
    annotations := h.annotations.size_eq ▸ hb.annotations
    annotationSets := h.annotationSets.size_eq ▸ hb.annotationSets }

theorem extends_finalized (p : Pools) : p.Extends p.finalized where
  strings := ⟨id⟩
  types := ⟨id⟩
  typeLists := ⟨id⟩
  protos := ⟨id⟩
  fields := ⟨id⟩
  methods := ⟨id⟩
  handles := ⟨id⟩
  arrays := ⟨id⟩
  callSites := ⟨id⟩
  annotations := ⟨id⟩
  annotationSets := ⟨id⟩

/-- Arenas that code pools are sealed as the pools are finalized. -/
theorem Codes.finalize (h : Arenas.Codes p a p) (ho : a.Open) (hb : a.Bounded) (hg : p.Growing) (hc : p.Closed) :
    ∃ b, a.finalize = .ok b ∧ SameKeys a b ∧ b.isFinalized = true ∧ Arenas.Codes p.finalized b p.finalized := by
  have hr := hg.ranked_finalized
  have hc := hc.finalized
  have hbounded : p.finalized.Bounded := { h.bounded_iff.mp hb with }
  have h := h.mono (extends_finalized p)
  obtain ⟨b, hfinalize, hkeys⟩ := exists_finalize ho fun k hk l hl => by
    obtain ⟨place, hplace⟩ := Array.getElem?_of_mem hk
    obtain ⟨q, -, hcodes⟩ := h.protos.exists_coded hplace
    have hparameters := hcodes.parameters
    rw [Option.mem_def.mp hl] at hparameters
    exact (h.typeLists.exists_getElem? hg.typeLists.wellFormed hparameters.2).imp fun _ => And.left
  have hseals := finalize_eq_ok_iff.mp hfinalize
  -- Ranks are those of the entries as soon as the arenas of the parts of a key are coded.
  have hstrings := h.strings.sealed hb.strings hseals.strings Utf16.encode (fun hk => by rw [hk]) fun s _ t _ =>
    (SortKey.compare_ofString s t).symm
  have htypes := h.types.sealed hb.types hseals.types p.finalized.typeRank
    (fun hk => congrArg Except.ok (typeRank_eq hstrings hk)) fun d hd e he => hr.compare_typeRank hbounded hc hd he
  have htypeLists := h.typeLists.sealed hb.typeLists hseals.typeLists p.finalized.typeListRank
    (fun hk => congrArg Except.ok (typeListRank_eq htypes hk)) fun ts hts us hus =>
      hr.compare_typeListRank hbounded (fun _ hd => hc.types_of_typeList hts hd) fun _ hd => hc.types_of_typeList hus hd
  have hprotos := h.protos.sealed hb.protos hseals.protos p.finalized.protoRank
    (protoRank_eq htypes htypeLists hr.typeLists.wellFormed (htypeLists.isSealed_eq.trans rfl)) fun q hq r hr' =>
      hr.compare_protoRank hbounded hc hq hr'
  have hfields := h.fields.sealed hb.fields hseals.fields p.finalized.fieldRank
    (fun hk => congrArg Except.ok (fieldRank_eq hstrings htypes hk)) fun f hf g hg =>
      hr.compare_fieldRank hbounded hc hf hg
  have hmethods := h.methods.sealed hb.methods hseals.methods p.finalized.methodRank
    (fun hk => congrArg Except.ok (methodRank_eq hstrings htypes hprotos hk)) fun m hm n hn =>
      hr.compare_methodRank hbounded hc hm hn
  have hhandles := h.handles.sealed hb.handles hseals.handles p.finalized.handleRank
    (fun hk => congrArg Except.ok (handleRank_eq hfields hmethods hk)) fun k hk l hl =>
      hr.compare_handleRank hbounded hc hk hl
  have harrays := h.arrays.sealed hb.arrays hseals.arrays id (fun hk => congrArg Except.ok hk) fun _ _ _ _ => rfl
  have hcallSites : b.callSites.Codes (CallSiteKey.Codes p.finalized) p.finalized.callSites :=
    h.callSites.sealed hb.callSites hseals.callSites p.finalized.callSiteRank
      (fun hk => congrArg Except.ok (callSiteRank_eq harrays hk)) fun c hc' d hd =>
        hr.compare_callSiteRank hbounded hc hc' hd
  have hannotations := h.annotations.sealed hb.annotations hseals.annotations id (fun hk => congrArg Except.ok hk)
    fun _ _ _ _ => rfl
  have hsets := h.annotationSets.sealed hb.annotationSets hseals.annotationSets p.finalized.annotationSetRank
    (fun hk => congrArg Except.ok (annotationSetRank_eq hannotations hr.annotations hbounded.annotations hk))
    fun as has bs hbs => hr.compare_annotationSetRank hbounded hc has hbs
  exact ⟨b, hfinalize, hkeys, hstrings.isSealed_eq.trans rfl,
    ⟨hstrings, htypes, htypeLists, hprotos, hfields, hmethods, hhandles, harrays, hcallSites, hannotations, hsets⟩⟩

end Arenas

end Builder

end Dalvik
