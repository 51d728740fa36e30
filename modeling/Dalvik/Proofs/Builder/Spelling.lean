import Dalvik.Builder
import Dalvik.Proofs.Assembly.InsertionOrder
import Dalvik.Proofs.Builder.Sealing

/-!
# Spelling keys out

Arenas that code pools are spelled out as pools with the same entries, ranked alike
(`Arenas.Codes.ranked`, `Arenas.Codes.has_pools`). What is made from either is alike then
(`Arenas.Codes.alike`).
-/

namespace Dalvik

namespace Pool

variable {α : Type} [BEq α] [Hashable α] [LawfulBEq α]

/-- New keys are added in their order. -/
theorem foldl_insert {p : Pool α} (h : p.Growing) {keys : List α} (hnodup : (p.keys.toList ++ keys).Nodup) :
    (keys.foldl insert p).Growing ∧ (keys.foldl insert p).keys.toList = p.keys.toList ++ keys := by
  induction keys generalizing p with
  | nil => exact ⟨h, (List.append_nil _).symm⟩
  | cons key keys ih =>
    have hnew : key ∉ p.keys := fun hkey =>
      (List.nodup_append.mp hnodup).2.2 key (Array.mem_toList_iff.mpr hkey) key List.mem_cons_self rfl
    have hkeys : (p.insert key).keys.toList = p.keys.toList ++ [key] := by
      rw [Pool.insert, if_neg (mt (h.wellFormed.contains_iff key).mp hnew), Array.toList_push]
    have hall : p.keys.toList ++ key :: keys = (p.insert key).keys.toList ++ keys := by
      rw [hkeys, List.append_assoc]
      rfl
    rw [hall] at hnodup ⊢
    exact ih (h.insert key) hnodup

omit [LawfulBEq α] in
/-- A pool with the same keys that is ranked alike is ranked. -/
theorem Ranked.congr {p q : Pool α} {before : α → α → Prop} (h : p.Ranked before) (hq : q.WellFormed)
    (hkeys : q.keys = p.keys) (hranking : q.ranking? = p.ranking?) : q.Ranked before := by
  have hsorted : q.sortedKeys = p.sortedKeys := by
    simp only [sortedKeys, sorted, ranking, hranking, hkeys]
    cases p.ranking? <;> rfl
  have hindex : q.index = p.index := by
    funext id
    rw [Pool.index, Pool.index, hranking]
  have hid (key : α) : q.id? key = p.id? key := by
    refine Option.ext fun id => ?_
    rw [id?, id?, hq.ids_iff, hkeys, h.wellFormed.ids_iff]
  have hsize : q.size = p.size := congrArg Array.size hkeys
  exact {
    isFinalized := by rw [Pool.isFinalized, hranking]; exact h.isFinalized
    wellFormed := hq
    indices := by rw [hsize, hindex]; exact h.indices
    perm := by rw [hsorted, hkeys]; exact h.perm
    ascending := by rw [hsorted]; exact h.ascending
    index := fun hplace => by
      rw [hsorted] at hplace
      rw [indexOrNone, hid, hindex]
      exact h.index hplace }

end Pool

namespace Arena.Codes

variable {κ α : Type} [BEq κ] [Hashable κ] [BEq α] [Hashable α] [LawfulBEq α] {R : κ → α → Prop} {a : Arena κ} {p : Pool α}

/-- Where every key is spelled as what it stands for, the keys are those of the pool. -/
theorem spelled (h : a.Codes R p) (hp : p.WellFormed) {spell? : κ → Option α}
    (hspell : ∀ {k x}, R k x → spell? k = some x) :
    (a.spelled spell?).WellFormed ∧ (a.spelled spell?).keys = p.keys ∧ (a.spelled spell?).ranking? = p.ranking? := by
  have hkeys : a.keys.toList.filterMap spell? = p.keys.toList := by
    have hkeys := h.keys
    generalize a.keys.toList = ks at hkeys
    generalize p.keys.toList = xs at hkeys
    induction hkeys with
    | nil => rfl
    | cons hkx _ ih => rw [List.filterMap_cons_some (hspell hkx), ih]
  have hnodup : (a.keys.toList.filterMap spell?).Nodup := hkeys ▸ hp.nodup
  obtain ⟨hgrowing, hall⟩ := Pool.foldl_insert (Pool.growing_empty a.name) hnodup
  have hall : (a.spelled spell?).keys.toList = p.keys.toList := hall.trans hkeys
  exact ⟨⟨hgrowing.wellFormed.ids_iff⟩, Array.toList_inj.mp hall, h.ranks.symm⟩

/-- Then the pool that is spelled out is ranked too. -/
theorem ranked_spelled (h : a.Codes R p) {before : α → α → Prop} (hr : p.Ranked before) {spell? : κ → Option α}
    (hspell : ∀ {k x}, R k x → spell? k = some x) : (a.spelled spell?).Ranked before := by
  obtain ⟨hwell, hkeys, hranking⟩ := h.spelled hr.wellFormed hspell
  exact hr.congr hwell hkeys hranking

end Arena.Codes

namespace Builder.Arenas

variable {a : Arenas} {p : Pools}

/-! ## What keys stand for -/

section spelling

variable (h : Arenas.Codes p a p) (hp : p.WellFormed)

include h hp

theorem string?_eq {k : Handle String} {s : String} (hk : k.Names p.strings s) : a.string? k = some s := by
  obtain ⟨code, hcode, rfl⟩ := h.strings.exists_getElem? hp.strings hk
  exact hcode

theorem type?_eq {k : Handle TypeKey} {d : String} (hk : k.Names p.types d) : a.type? k = some d := by
  obtain ⟨code, hcode, hd⟩ := h.types.exists_getElem? hp.types hk
  rw [type?, hcode]
  exact string?_eq h hp hd

theorem typeListOf?_eq {k : TypeListKey} {ts : List String} (hk : k.Codes p ts) : a.typeListOf? k = some ts := by
  rw [typeListOf?]
  have htypes := hk.2
  clear hk
  generalize k.types = ks at htypes
  induction htypes with
  | nil => rfl
  | cons hd _ ih =>
    rw [List.mapM_cons, type?_eq h hp hd, ih]
    rfl

theorem typeList?_eq {k : Option (Handle TypeListKey)} {ts : List String} (hk : TypeListCode p k ts) :
    a.typeList? k = some ts := by
  cases k with
  | none => exact congrArg some (not_not.mp hk).symm
  | some k =>
    obtain ⟨code, hcode, hts⟩ := h.typeLists.exists_getElem? hp.typeLists hk.2
    rw [typeList?, hcode]
    exact typeListOf?_eq h hp hts

theorem protoOf?_eq {k : ProtoKey} {q : Prototype} (hk : k.Codes p q) : a.protoOf? k = some q := by
  rw [protoOf?, type?_eq h hp hk.returnType, typeList?_eq h hp hk.parameters]
  rfl

theorem fieldOf?_eq {k : FieldKey} {f : FieldSig} (hk : k.Codes p f) : a.fieldOf? k = some f := by
  rw [fieldOf?, type?_eq h hp hk.definingClass, string?_eq h hp hk.name, type?_eq h hp hk.type]
  rfl

theorem methodOf?_eq {k : MethodKey} {m : MethodSig} (hk : k.Codes p m) : a.methodOf? k = some m := by
  obtain ⟨code, hcode, hproto⟩ := h.protos.exists_getElem? hp.protos hk.proto
  rw [methodOf?, hcode]
  show (do
    let proto ← a.protoOf? code
    return MethodSig.mk (← a.type? k.definingClass) (← a.string? k.name) proto.parameters proto.returnType) = _
  rw [protoOf?_eq h hp hproto, type?_eq h hp hk.definingClass, string?_eq h hp hk.name]
  rfl

theorem memberOf?_eq {k : MemberKey} {m : HandleMember} (hk : k.Codes p m) : a.memberOf? k = some m := by
  cases k with
  | field k =>
    cases m with
    | field f =>
      obtain ⟨code, hcode, hf⟩ := h.fields.exists_getElem? hp.fields hk
      rw [memberOf?, hcode]
      exact congrArg (Option.map HandleMember.field) (fieldOf?_eq h hp hf)
    | method m => exact hk.elim
  | method k =>
    cases m with
    | field f => exact hk.elim
    | method m =>
      obtain ⟨code, hcode, hm⟩ := h.methods.exists_getElem? hp.methods hk
      rw [memberOf?, hcode]
      exact congrArg (Option.map HandleMember.method) (methodOf?_eq h hp hm)

theorem handleOf?_eq {k : MethodHandleKey} {x : MethodHandle} (hk : k.Codes p x) : a.handleOf? k = some x := by
  rw [handleOf?, memberOf?_eq h hp hk.member, hk.kind]
  show (MethodHandle.make x.kind x.member).toOption = _
  rw [MethodHandle.make, dif_pos x.kind_fits]
  rfl

theorem callSiteOf?_eq {k : CallSiteKey} {c : CallSite} (hk : k.Codes p c) : a.callSiteOf? k = some c := by
  obtain ⟨code, hcode, rfl⟩ := h.arrays.exists_getElem? hp.arrays hk
  rw [callSiteOf?, hcode]
  exact CallSite.ofValues?_values c

theorem annotationSetOf?_eq (hc : p.Closed) {k : AnnotationSetKey} {as : List AnnotationItem} (hk : k.Codes p as) :
    a.annotationSetOf? k = some as := by
  have hkeys : ∃ bs, k.annotations.mapM (fun h => a.annotations.keys[h.id.toNat]?) = some bs ∧
      List.Forall₂ (fun h b => h.Names p.annotations b) k.annotations bs := by
    have hnamed : ∀ h ∈ k.annotations, ∃ b, h.Names p.annotations b := fun h hh => (hk.named h hh).imp fun _ => And.right
    generalize k.annotations = handles at hnamed
    induction handles with
    | nil => exact ⟨[], rfl, .nil⟩
    | cons k ks ih =>
      obtain ⟨b, hb⟩ := hnamed k List.mem_cons_self
      obtain ⟨bs, hbs, hall⟩ := ih fun h hh => hnamed h (List.mem_cons_of_mem _ hh)
      obtain ⟨code, hcode, rfl⟩ := h.annotations.exists_getElem? hp.annotations hb
      exact ⟨code :: bs, by rw [List.mapM_cons, hcode, hbs]; rfl, .cons hb hall⟩
  obtain ⟨bs, hbs, hall⟩ := hkeys
  rw [annotationSetOf?, hbs, Option.map_some]
  refine congrArg some (eq_of_pairwise_lt id compare (AnnotationItem.setOf_pairwise bs) hk.proper.2 fun b => ?_)
  have harranged : ∀ b ∈ p.annotations.keys, b.arranged = b := fun b hb => hc.proper (e := .annotationItem b) hb
  rw [AnnotationItem.mem_setOf, List.mem_map]
  constructor
  · rintro ⟨c, hc', rfl⟩
    obtain ⟨i, hi, hnames⟩ := exists_mem_left hall hc'
    obtain ⟨d, hd, hnames'⟩ := hk.named i hi
    obtain rfl := hnames.right_inj hp.annotations hnames'
    rwa [harranged _ (hnames.mem hp.annotations)]
  · intro hb
    obtain ⟨i, hi, hnames⟩ := hk.complete b hb
    obtain ⟨c, hc', hnames'⟩ := exists_mem_right hall hi
    obtain rfl := hnames.right_inj hp.annotations hnames'
    exact ⟨b, hc', harranged b (hnames.mem hp.annotations)⟩

end spelling

/-! ## The pools -/

section pools

variable (h : Arenas.Codes p a p) (hr : p.Ranked) (hc : p.Closed)

include h hr hc

theorem Codes.ranked_pools : a.pools.Ranked :=
  have hp := hr.wellFormed
  { strings := h.strings.ranked_spelled hr.strings (congrArg some)
    types := h.types.ranked_spelled hr.types (string?_eq h hp)
    typeLists := h.typeLists.ranked_spelled hr.typeLists (typeListOf?_eq h hp)
    protos := h.protos.ranked_spelled hr.protos (protoOf?_eq h hp)
    fields := h.fields.ranked_spelled hr.fields (fieldOf?_eq h hp)
    methods := h.methods.ranked_spelled hr.methods (methodOf?_eq h hp)
    handles := h.handles.ranked_spelled hr.handles (handleOf?_eq h hp)
    arrays := h.arrays.ranked_spelled hr.arrays (congrArg some)
    callSites := h.callSites.ranked_spelled hr.callSites (callSiteOf?_eq h hp)
    annotations := h.annotations.ranked_spelled hr.annotations (congrArg some)
    annotationSets := h.annotationSets.ranked_spelled hr.annotationSets (annotationSetOf?_eq h hp hc) }

/-- What keys stand for is what the pools hold. -/
theorem Codes.has_pools (e : Entry) : a.pools.Has e ↔ p.Has e := by
  have hp := hr.wellFormed
  have hiff {α : Type} [BEq α] [Hashable α] {p q : Pool α} (hkeys : q.keys = p.keys) (x : α) : x ∈ q.keys ↔ x ∈ p.keys := by
    rw [hkeys]
  cases e with
  | string s => exact hiff (h.strings.spelled hp.strings (congrArg some)).2.1 s
  | type d => exact hiff (h.types.spelled hp.types (string?_eq h hp)).2.1 d
  | typeList ts => exact hiff (h.typeLists.spelled hp.typeLists (typeListOf?_eq h hp)).2.1 ts
  | proto q => exact hiff (h.protos.spelled hp.protos (protoOf?_eq h hp)).2.1 q
  | field f => exact hiff (h.fields.spelled hp.fields (fieldOf?_eq h hp)).2.1 f
  | method m => exact hiff (h.methods.spelled hp.methods (methodOf?_eq h hp)).2.1 m
  | handle k => exact hiff (h.handles.spelled hp.handles (handleOf?_eq h hp)).2.1 k
  | array vs => exact hiff (h.arrays.spelled hp.arrays (congrArg some)).2.1 vs
  | callSite c => exact hiff (h.callSites.spelled hp.callSites (callSiteOf?_eq h hp)).2.1 c
  | annotationItem b => exact hiff (h.annotations.spelled hp.annotations (congrArg some)).2.1 b
  | annotationSet as => exact hiff (h.annotationSets.spelled hp.annotationSets (annotationSetOf?_eq h hp hc)).2.1 as

theorem Codes.closed_pools : a.pools.Closed :=
  have hhas := Codes.has_pools h hr hc
  { proper := fun he => hc.proper ((hhas _).mp he)
    support := fun he hd => (hhas _).mpr (hc.support ((hhas _).mp he) hd) }

/-- What is made from keys that are spelled out is made as from the pools. -/
theorem Codes.alike (opcodes : Opcodes) (classes : List ClassDef) :
    Blueprint.Alike ⟨opcodes, a.pools, classes⟩ ⟨opcodes, p, classes⟩ :=
  (Codes.ranked_pools h hr hc).alike hr (Codes.closed_pools h hr hc) hc (Codes.has_pools h hr hc) opcodes classes

end pools

end Builder.Arenas

end Dalvik
