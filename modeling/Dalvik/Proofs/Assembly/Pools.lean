import Dalvik.Assembly.Pools
import Dalvik.Proofs.Assembly.Entry
import Dalvik.Proofs.Order.SortKey
import Dalvik.Proofs.Pool

/-!
# What the pools of a file hold and how they are ranked

Pools that take keys hold the entries that have been inserted
(`has_insertAll`). Finalizing them cannot fail (`finalize_eq`), keeps the
entries (`has_finalized`), and ranks the keys of each pool by their sort keys
(`ranked_finalized`).
-/

namespace Dalvik.Pools

/-! ## Gathering -/

/-- Whether an entry is in its pool. -/
def Has (p : Pools) : Entry → Prop
  | .string s => s ∈ p.strings.keys
  | .type d => d ∈ p.types.keys
  | .typeList ts => ts ∈ p.typeLists.keys
  | .proto q => q ∈ p.protos.keys
  | .field f => f ∈ p.fields.keys
  | .method m => m ∈ p.methods.keys
  | .handle h => h ∈ p.handles.keys
  | .array vs => vs ∈ p.arrays.keys
  | .callSite c => c ∈ p.callSites.keys
  | .annotationItem a => a ∈ p.annotations.keys
  | .annotationSet as => as ∈ p.annotationSets.keys

/-- All pools take keys. -/
structure Growing (p : Pools) : Prop where
  strings : p.strings.Growing
  types : p.types.Growing
  typeLists : p.typeLists.Growing
  protos : p.protos.Growing
  fields : p.fields.Growing
  methods : p.methods.Growing
  handles : p.handles.Growing
  arrays : p.arrays.Growing
  callSites : p.callSites.Growing
  annotations : p.annotations.Growing
  annotationSets : p.annotationSets.Growing

theorem growing_empty : Growing {} where
  strings := Pool.growing_empty _
  types := Pool.growing_empty _
  typeLists := Pool.growing_empty _
  protos := Pool.growing_empty _
  fields := Pool.growing_empty _
  methods := Pool.growing_empty _
  handles := Pool.growing_empty _
  arrays := Pool.growing_empty _
  callSites := Pool.growing_empty _
  annotations := Pool.growing_empty _
  annotationSets := Pool.growing_empty _

theorem not_has_empty (e : Entry) : ¬ Has {} e := by
  cases e <;> exact Array.not_mem_empty _

variable {p : Pools}

namespace Growing

theorem isFinalized (h : p.Growing) : p.isFinalized = false := by
  simp [Pools.isFinalized, Pool.isFinalized, h.strings.ranking?_eq]

/-- Pools that take keys accept every entry. -/
theorem accept (h : p.Growing) (e : Entry) : p.accept e = .ok () := by
  have hfinalized : (p.poolOf e).2 = false := by
    cases e with
    | string s => simp [poolOf, Pool.isFinalized, h.strings.ranking?_eq]
    | type d => simp [poolOf, Pool.isFinalized, h.types.ranking?_eq]
    | typeList ts => simp [poolOf, Pool.isFinalized, h.typeLists.ranking?_eq]
    | proto q => simp [poolOf, Pool.isFinalized, h.protos.ranking?_eq]
    | field f => simp [poolOf, Pool.isFinalized, h.fields.ranking?_eq]
    | method m => simp [poolOf, Pool.isFinalized, h.methods.ranking?_eq]
    | handle k => simp [poolOf, Pool.isFinalized, h.handles.ranking?_eq]
    | array vs => simp [poolOf, Pool.isFinalized, h.arrays.ranking?_eq]
    | callSite c => simp [poolOf, Pool.isFinalized, h.callSites.ranking?_eq]
    | annotationItem a => simp [poolOf, Pool.isFinalized, h.annotations.ranking?_eq]
    | annotationSet as => simp [poolOf, Pool.isFinalized, h.annotationSets.ranking?_eq]
  simp [Pools.accept, hfinalized]

theorem insert (h : p.Growing) (e : Entry) : (p.insert e).Growing := by
  cases e with
  | string s => exact { h with strings := h.strings.insert s }
  | type d => exact { h with types := h.types.insert d }
  | typeList ts => exact { h with typeLists := h.typeLists.insert ts }
  | proto q => exact { h with protos := h.protos.insert q }
  | field f => exact { h with fields := h.fields.insert f }
  | method m => exact { h with methods := h.methods.insert m }
  | handle k => exact { h with handles := h.handles.insert k }
  | array vs => exact { h with arrays := h.arrays.insert vs }
  | callSite c => exact { h with callSites := h.callSites.insert c }
  | annotationItem a => exact { h with annotations := h.annotations.insert a }
  | annotationSet as => exact { h with annotationSets := h.annotationSets.insert as }

/-- An insertion adds one entry and loses none. -/
theorem has_insert (h : p.Growing) {e d : Entry} : (p.insert e).Has d ↔ d = e ∨ p.Has d := by
  cases e with
  | string s => cases d <;> simp [Has, Pools.insert, Pool.mem_insert h.strings.wellFormed]
  | type t => cases d <;> simp [Has, Pools.insert, Pool.mem_insert h.types.wellFormed]
  | typeList ts => cases d <;> simp [Has, Pools.insert, Pool.mem_insert h.typeLists.wellFormed]
  | proto q => cases d <;> simp [Has, Pools.insert, Pool.mem_insert h.protos.wellFormed]
  | field f => cases d <;> simp [Has, Pools.insert, Pool.mem_insert h.fields.wellFormed]
  | method m => cases d <;> simp [Has, Pools.insert, Pool.mem_insert h.methods.wellFormed]
  | handle k => cases d <;> simp [Has, Pools.insert, Pool.mem_insert h.handles.wellFormed]
  | array vs => cases d <;> simp [Has, Pools.insert, Pool.mem_insert h.arrays.wellFormed]
  | callSite c => cases d <;> simp [Has, Pools.insert, Pool.mem_insert h.callSites.wellFormed]
  | annotationItem a => cases d <;> simp [Has, Pools.insert, Pool.mem_insert h.annotations.wellFormed]
  | annotationSet as => cases d <;> simp [Has, Pools.insert, Pool.mem_insert h.annotationSets.wellFormed]

theorem insertAll (h : p.Growing) (entries : List Entry) : (p.insertAll entries).Growing := by
  induction entries generalizing p with
  | nil => exact h
  | cons e entries ih => exact ih (h.insert e)

theorem has_insertAll (h : p.Growing) {entries : List Entry} {d : Entry} :
    (p.insertAll entries).Has d ↔ d ∈ entries ∨ p.Has d := by
  induction entries generalizing p with
  | nil => simp [Pools.insertAll]
  | cons e entries ih =>
    have := ih (h.insert e)
    rw [h.has_insert] at this
    simpa [Pools.insertAll, or_assoc, or_left_comm] using this

end Growing

/-! ## Support -/

/-- The entries of the pools are proper, and what they are made of is there. -/
structure Closed (p : Pools) : Prop where
  proper : ∀ {e : Entry}, p.Has e → e.Proper
  support : ∀ {e d : Entry}, p.Has e → d ∈ e.support → p.Has d

namespace Closed

theorem string_of_type (h : p.Closed) {d : String} (hd : p.Has (.type d)) : p.Has (.string d) :=
  h.support hd (by simp [Entry.support])

theorem types_of_typeList (h : p.Closed) {ts : List String} (hts : p.Has (.typeList ts)) {d : String} (hd : d ∈ ts) :
    p.Has (.type d) :=
  h.support hts (List.mem_flatMap.mpr ⟨d, hd, by simp [Entry.ofType]⟩)

theorem shorty_of_proto (h : p.Closed) {q : Prototype} (hq : p.Has (.proto q)) : p.Has (.string q.shorty) :=
  h.support hq (by simp [Entry.support])

theorem returnType_of_proto (h : p.Closed) {q : Prototype} (hq : p.Has (.proto q)) : p.Has (.type q.returnType) :=
  h.support hq (by simp [Entry.support, Entry.ofType])

theorem typeList_of_proto (h : p.Closed) {q : Prototype} (hq : p.Has (.proto q)) (hne : q.parameters ≠ []) :
    p.Has (.typeList q.parameters) :=
  h.support hq (by simp [Entry.support, Entry.ofTypeList, hne])

theorem parameters_of_proto (h : p.Closed) {q : Prototype} (hq : p.Has (.proto q)) {d : String}
    (hd : d ∈ q.parameters) : p.Has (.type d) :=
  h.types_of_typeList (h.typeList_of_proto hq (List.ne_nil_of_mem hd)) hd

theorem definingClass_of_field (h : p.Closed) {f : FieldSig} (hf : p.Has (.field f)) :
    p.Has (.type f.definingClass) :=
  h.support hf (by simp [Entry.support, Entry.ofType])

theorem name_of_field (h : p.Closed) {f : FieldSig} (hf : p.Has (.field f)) : p.Has (.string f.name) :=
  h.support hf (by simp [Entry.support])

theorem type_of_field (h : p.Closed) {f : FieldSig} (hf : p.Has (.field f)) : p.Has (.type f.type) :=
  h.support hf (by simp [Entry.support, Entry.ofType])

theorem definingClass_of_method (h : p.Closed) {m : MethodSig} (hm : p.Has (.method m)) :
    p.Has (.type m.definingClass) :=
  h.support hm (by simp [Entry.support, Entry.ofType])

theorem name_of_method (h : p.Closed) {m : MethodSig} (hm : p.Has (.method m)) : p.Has (.string m.name) :=
  h.support hm (by simp [Entry.support])

theorem proto_of_method (h : p.Closed) {m : MethodSig} (hm : p.Has (.method m)) : p.Has (.proto m.proto) :=
  h.support hm (by simp [Entry.support, Entry.ofProto])

/-- The entry of the member of a handle. -/
def memberEntry : HandleMember → Entry
  | .field f => .field f
  | .method m => .method m

theorem member_of_handle (h : p.Closed) {k : MethodHandle} (hk : p.Has (.handle k)) :
    p.Has (memberEntry k.member) := by
  refine h.support hk ?_
  simp only [Entry.support]
  cases k.member <;> simp [Entry.ofMember, Entry.ofField, Entry.ofMethod, memberEntry]

theorem array_of_callSite (h : p.Closed) {c : CallSite} (hc : p.Has (.callSite c)) : p.Has (.array c.values) :=
  h.support hc (by simp [Entry.support, Entry.ofArray])

end Closed

theorem closed_empty : Closed {} where
  proper he := absurd he (not_has_empty _)
  support he := absurd he (not_has_empty _)

/-- The insertion of closed entries keeps pools closed. -/
theorem Closed.insertAll (h : p.Closed) (hp : p.Growing) {entries : List Entry} (hclosed : Entry.Closed entries) :
    (p.insertAll entries).Closed where
  proper he := (hp.has_insertAll.mp he).elim hclosed.proper h.proper
  support he hd := hp.has_insertAll.mpr <| (hp.has_insertAll.mp he).imp (fun he => hclosed.support he hd)
    fun he => h.support he hd

/-! ## Finalizing -/

/-- The pools as they are finalized. -/
def finalized (p : Pools) : Pools where
  strings := p.strings.finalizedBy SortKey.compare SortKey.ofString
  types := p.types.finalizedBy SortKey.compare SortKey.ofString
  typeLists := p.typeLists.finalizedBy SortKey.compare SortKey.ofStrings
  protos := p.protos.finalizedBy SortKey.compare SortKey.ofProto
  fields := p.fields.finalizedBy SortKey.compare SortKey.ofField
  methods := p.methods.finalizedBy SortKey.compare SortKey.ofMethod
  handles := p.handles.finalizedBy SortKey.compare SortKey.ofHandle
  arrays := p.arrays.finalizedBy Value.compareValues id
  callSites := p.callSites.finalizedBy (fun c d => Value.compareValues c.values d.values) id
  annotations := p.annotations.finalizedBy compare id
  annotationSets := p.annotationSets.finalizedBy (List.compareLex compare) id

/-- Pools that take keys can be finalized. -/
theorem Growing.finalize_eq (h : p.Growing) : p.finalize = .ok p.finalized := by
  have hkey {α : Type} [BEq α] [Hashable α] {pool : Pool α} (hp : pool.Growing) (key : α → SortKey) :
      finalizeByKey pool key = .ok (pool.finalizedBy SortKey.compare key) :=
    Pool.finalizeBy_eq hp.ranking?_eq SortKey.compare key
  have horder {α : Type} [BEq α] [Hashable α] {pool : Pool α} (hp : pool.Growing) (cmp : α → α → Ordering) :
      finalizeByOrder pool cmp = .ok (pool.finalizedBy cmp id) :=
    Pool.finalizeBy_eq hp.ranking?_eq cmp id
  simp only [finalize, hkey h.strings, hkey h.types, hkey h.typeLists, hkey h.protos, hkey h.fields, hkey h.methods,
    hkey h.handles, horder h.arrays, horder h.callSites, horder h.annotations, horder h.annotationSets]
  rfl

/-- Finalizing keeps the entries. -/
theorem has_finalized (e : Entry) : p.finalized.Has e ↔ p.Has e := by
  cases e <;> exact Iff.rfl

theorem Closed.finalized (h : p.Closed) : p.finalized.Closed where
  proper he := h.proper ((has_finalized _).mp he)
  support he hd := (has_finalized _).mpr (h.support ((has_finalized _).mp he) hd)

/-- The keys of each pool are ranked by their sort keys. -/
structure Ranked (p : Pools) : Prop where
  strings : p.strings.Ranked fun s t => SortKey.compare (SortKey.ofString s) (SortKey.ofString t) = .lt
  types : p.types.Ranked fun d e => SortKey.compare (SortKey.ofString d) (SortKey.ofString e) = .lt
  typeLists : p.typeLists.Ranked fun ts us => SortKey.compare (SortKey.ofStrings ts) (SortKey.ofStrings us) = .lt
  protos : p.protos.Ranked fun q r => SortKey.compare (SortKey.ofProto q) (SortKey.ofProto r) = .lt
  fields : p.fields.Ranked fun f g => SortKey.compare (SortKey.ofField f) (SortKey.ofField g) = .lt
  methods : p.methods.Ranked fun m n => SortKey.compare (SortKey.ofMethod m) (SortKey.ofMethod n) = .lt
  handles : p.handles.Ranked fun h k => SortKey.compare (SortKey.ofHandle h) (SortKey.ofHandle k) = .lt
  arrays : p.arrays.Ranked fun vs ws => Value.compareValues vs ws = .lt
  callSites : p.callSites.Ranked fun c d => Value.compareValues c.values d.values = .lt
  annotations : p.annotations.Ranked fun a b => compare a b = .lt
  annotationSets : p.annotationSets.Ranked fun as bs => List.compareLex compare as bs = .lt

theorem values_injective : Function.Injective CallSite.values := fun c d h =>
  Option.some.inj ((CallSite.ofValues?_values c).symm.trans (h ▸ CallSite.ofValues?_values d))

instance : Std.TransCmp fun c d : CallSite => Value.compareValues c.values d.values :=
  transCmp_on CallSite.values Value.compareValues

instance : Std.LawfulEqCmp fun c d : CallSite => Value.compareValues c.values d.values :=
  lawfulEqCmp_on values_injective Value.compareValues

theorem Growing.ranked_finalized (h : p.Growing) : p.finalized.Ranked where
  strings := Pool.ranked_finalizedBy _ _ h.strings.wellFormed SortKey.ofString_injective fun _ _ => id
  types := Pool.ranked_finalizedBy _ _ h.types.wellFormed SortKey.ofString_injective fun _ _ => id
  typeLists := Pool.ranked_finalizedBy _ _ h.typeLists.wellFormed SortKey.ofStrings_injective fun _ _ => id
  protos := Pool.ranked_finalizedBy _ _ h.protos.wellFormed SortKey.ofProto_injective fun _ _ => id
  fields := Pool.ranked_finalizedBy _ _ h.fields.wellFormed SortKey.ofField_injective fun _ _ => id
  methods := Pool.ranked_finalizedBy _ _ h.methods.wellFormed SortKey.ofMethod_injective fun _ _ => id
  handles := Pool.ranked_finalizedBy _ _ h.handles.wellFormed SortKey.ofHandle_injective fun _ _ => id
  arrays := Pool.ranked_finalizedBy _ _ h.arrays.wellFormed Function.injective_id fun _ _ => id
  callSites := Pool.ranked_finalizedBy _ _ h.callSites.wellFormed Function.injective_id fun _ _ => id
  annotations := Pool.ranked_finalizedBy _ _ h.annotations.wellFormed Function.injective_id fun _ _ => id
  annotationSets := Pool.ranked_finalizedBy _ _ h.annotationSets.wellFormed Function.injective_id fun _ _ => id

end Dalvik.Pools
