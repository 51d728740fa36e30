import Dalvik.Builder.Arenas
import Dalvik.Proofs.Arena.Coding
import Dalvik.Proofs.Assembly.Pools

/-!
# What the keys of a builder stand for

A key made of handles stands for the entry whose parts the handles stand for: each kind of
key has a relation to what is spelled out in the pools (`TypeKey.Codes` and so on). In
pools that are well-formed such a relation is one to one: a proto key has no more than its
types to tell it apart since its short form follows from them. `Codes` says that the
arenas hold the codes of what is in the pools.
-/

namespace Dalvik

/-! ## More entries -/

/-- What has an id in the first pools has it in the others. -/
structure Pools.Extends (p q : Pools) : Prop where
  strings : p.strings.Extends q.strings
  types : p.types.Extends q.types
  typeLists : p.typeLists.Extends q.typeLists
  protos : p.protos.Extends q.protos
  fields : p.fields.Extends q.fields
  methods : p.methods.Extends q.methods
  handles : p.handles.Extends q.handles
  arrays : p.arrays.Extends q.arrays
  callSites : p.callSites.Extends q.callSites
  annotations : p.annotations.Extends q.annotations
  annotationSets : p.annotationSets.Extends q.annotationSets

namespace Pools.Extends

theorem refl (p : Pools) : p.Extends p where
  strings := .refl _
  types := .refl _
  typeLists := .refl _
  protos := .refl _
  fields := .refl _
  methods := .refl _
  handles := .refl _
  arrays := .refl _
  callSites := .refl _
  annotations := .refl _
  annotationSets := .refl _

theorem trans {p q r : Pools} (h : p.Extends q) (h' : q.Extends r) : p.Extends r where
  strings := h.strings.trans h'.strings
  types := h.types.trans h'.types
  typeLists := h.typeLists.trans h'.typeLists
  protos := h.protos.trans h'.protos
  fields := h.fields.trans h'.fields
  methods := h.methods.trans h'.methods
  handles := h.handles.trans h'.handles
  arrays := h.arrays.trans h'.arrays
  callSites := h.callSites.trans h'.callSites
  annotations := h.annotations.trans h'.annotations
  annotationSets := h.annotationSets.trans h'.annotationSets

theorem insert {p : Pools} (h : p.Growing) (e : Entry) : p.Extends (p.insert e) := by
  cases e with
  | string s => exact { refl p with strings := .insert h.strings.wellFormed s }
  | type d => exact { refl p with types := .insert h.types.wellFormed d }
  | typeList ts => exact { refl p with typeLists := .insert h.typeLists.wellFormed ts }
  | proto q => exact { refl p with protos := .insert h.protos.wellFormed q }
  | field f => exact { refl p with fields := .insert h.fields.wellFormed f }
  | method m => exact { refl p with methods := .insert h.methods.wellFormed m }
  | handle k => exact { refl p with handles := .insert h.handles.wellFormed k }
  | array vs => exact { refl p with arrays := .insert h.arrays.wellFormed vs }
  | callSite c => exact { refl p with callSites := .insert h.callSites.wellFormed c }
  | annotationItem a => exact { refl p with annotations := .insert h.annotations.wellFormed a }
  | annotationSet as => exact { refl p with annotationSets := .insert h.annotationSets.wellFormed as }

theorem insertAll {p : Pools} (h : p.Growing) (entries : List Entry) : p.Extends (p.insertAll entries) := by
  induction entries generalizing p with
  | nil => exact refl p
  | cons e entries ih => exact (insert h e).trans (ih (h.insert e))

end Pools.Extends

/-- Pools in which every id leads to its key. -/
structure Pools.WellFormed (p : Pools) : Prop where
  strings : p.strings.WellFormed
  types : p.types.WellFormed
  typeLists : p.typeLists.WellFormed
  protos : p.protos.WellFormed
  fields : p.fields.WellFormed
  methods : p.methods.WellFormed
  handles : p.handles.WellFormed
  arrays : p.arrays.WellFormed
  callSites : p.callSites.WellFormed
  annotations : p.annotations.WellFormed
  annotationSets : p.annotationSets.WellFormed

theorem Pools.Ranked.wellFormed {p : Pools} (h : p.Ranked) : p.WellFormed where
  strings := h.strings.wellFormed
  types := h.types.wellFormed
  typeLists := h.typeLists.wellFormed
  protos := h.protos.wellFormed
  fields := h.fields.wellFormed
  methods := h.methods.wellFormed
  handles := h.handles.wellFormed
  arrays := h.arrays.wellFormed
  callSites := h.callSites.wellFormed
  annotations := h.annotations.wellFormed
  annotationSets := h.annotationSets.wellFormed

theorem Pools.Growing.wellFormed {p : Pools} (h : p.Growing) : p.WellFormed where
  strings := h.strings.wellFormed
  types := h.types.wellFormed
  typeLists := h.typeLists.wellFormed
  protos := h.protos.wellFormed
  fields := h.fields.wellFormed
  methods := h.methods.wellFormed
  handles := h.handles.wellFormed
  arrays := h.arrays.wellFormed
  callSites := h.callSites.wellFormed
  annotations := h.annotations.wellFormed
  annotationSets := h.annotationSets.wellFormed

namespace Builder

variable {p q : Pools}

/-! ## What keys stand for -/

def TypeKey.Codes (p : Pools) (k : TypeKey) (d : String) : Prop :=
  k.name.Names p.strings d

/-- The handles stand for the types of a list, one by one. -/
def TypesCode (p : Pools) : List (Handle TypeKey) → List String → Prop :=
  List.Forall₂ fun h d => h.Names p.types d

def TypeListKey.Codes (p : Pools) (k : TypeListKey) (ts : List String) : Prop :=
  ts ≠ [] ∧ TypesCode p k.types ts

/-- Something that may be missing: the handle stands for what is there, and there is none
where nothing is. -/
def Code? {κ α : Type} (Given : α → Prop) (Names : Handle κ → α → Prop) : Option (Handle κ) → α → Prop
  | some h, x => Given x ∧ Names h x
  | none, x => ¬ Given x

/-- A list of types has a handle unless it is empty. -/
def TypeListCode (p : Pools) : Option (Handle TypeListKey) → List String → Prop :=
  Code? (· ≠ []) fun h ts => h.Names p.typeLists ts

structure ProtoKey.Codes (p : Pools) (k : ProtoKey) (q : Prototype) : Prop where
  shorty : k.shorty.Names p.strings q.shorty
  returnType : k.returnType.Names p.types q.returnType
  parameters : TypeListCode p k.parameters q.parameters

structure FieldKey.Codes (p : Pools) (k : FieldKey) (f : FieldSig) : Prop where
  definingClass : k.definingClass.Names p.types f.definingClass
  name : k.name.Names p.strings f.name
  type : k.type.Names p.types f.type

structure MethodKey.Codes (p : Pools) (k : MethodKey) (m : MethodSig) : Prop where
  definingClass : k.definingClass.Names p.types m.definingClass
  name : k.name.Names p.strings m.name
  proto : k.proto.Names p.protos m.proto

def MemberKey.Codes (p : Pools) : MemberKey → HandleMember → Prop
  | .field h, .field f => h.Names p.fields f
  | .method h, .method m => h.Names p.methods m
  | _, _ => False

structure MethodHandleKey.Codes (p : Pools) (k : MethodHandleKey) (h : MethodHandle) : Prop where
  kind : k.kind = h.kind
  member : k.member.Codes p h.member

def CallSiteKey.Codes (p : Pools) (k : CallSiteKey) (c : CallSite) : Prop :=
  k.array.Names p.arrays c.values

/-- The set is in the order of the annotations, and its handles are in an order of their
own. -/
structure AnnotationSetKey.Codes (p : Pools) (k : AnnotationSetKey) (as : List AnnotationItem) : Prop where
  proper : (Entry.annotationSet as).Proper
  ascending : k.annotations.Pairwise fun h h' => compare h h' = .lt
  named : ∀ h ∈ k.annotations, ∃ a ∈ as, h.Names p.annotations a
  complete : ∀ a ∈ as, ∃ h ∈ k.annotations, h.Names p.annotations a

/-! ## More entries leave this as it is -/

theorem TypeKey.Codes.mono (h : p.Extends q) {k : TypeKey} {d : String} (hk : k.Codes p d) : k.Codes q d :=
  h.strings.names hk

theorem TypesCode.mono (h : p.Extends q) {ks : List (Handle TypeKey)} {ts : List String} (hk : TypesCode p ks ts) :
    TypesCode q ks ts :=
  hk.imp fun _ _ hx => h.types.names hx

theorem TypeListKey.Codes.mono (h : p.Extends q) {k : TypeListKey} {ts : List String} (hk : k.Codes p ts) :
    k.Codes q ts :=
  ⟨hk.1, hk.2.mono h⟩

theorem Code?.imp {κ α : Type} {Given : α → Prop} {Names Names' : Handle κ → α → Prop}
    (himp : ∀ h x, Names h x → Names' h x) {h : Option (Handle κ)} {x : α} (hx : Code? Given Names h x) :
    Code? Given Names' h x := by
  cases h with
  | none => exact hx
  | some h => exact ⟨hx.1, himp h x hx.2⟩

theorem TypeListCode.mono (h : p.Extends q) {k : Option (Handle TypeListKey)} {ts : List String}
    (hk : TypeListCode p k ts) : TypeListCode q k ts :=
  Code?.imp (fun _ _ hx => h.typeLists.names hx) hk

theorem ProtoKey.Codes.mono (h : p.Extends q) {k : ProtoKey} {r : Prototype} (hk : k.Codes p r) : k.Codes q r :=
  ⟨h.strings.names hk.shorty, h.types.names hk.returnType, hk.parameters.mono h⟩

theorem FieldKey.Codes.mono (h : p.Extends q) {k : FieldKey} {f : FieldSig} (hk : k.Codes p f) : k.Codes q f :=
  ⟨h.types.names hk.definingClass, h.strings.names hk.name, h.types.names hk.type⟩

theorem MethodKey.Codes.mono (h : p.Extends q) {k : MethodKey} {m : MethodSig} (hk : k.Codes p m) : k.Codes q m :=
  ⟨h.types.names hk.definingClass, h.strings.names hk.name, h.protos.names hk.proto⟩

theorem MemberKey.Codes.mono (h : p.Extends q) {k : MemberKey} {m : HandleMember} (hk : k.Codes p m) :
    k.Codes q m := by
  cases k <;> cases m <;> first | exact h.fields.names hk | exact h.methods.names hk | exact hk

theorem MethodHandleKey.Codes.mono (h : p.Extends q) {k : MethodHandleKey} {m : MethodHandle} (hk : k.Codes p m) :
    k.Codes q m :=
  ⟨hk.kind, hk.member.mono h⟩

theorem CallSiteKey.Codes.mono (h : p.Extends q) {k : CallSiteKey} {c : CallSite} (hk : k.Codes p c) : k.Codes q c :=
  h.arrays.names hk

theorem AnnotationSetKey.Codes.mono (h : p.Extends q) {k : AnnotationSetKey} {as : List AnnotationItem}
    (hk : k.Codes p as) : k.Codes q as :=
  { hk with
    named := fun i hi => (hk.named i hi).imp fun _ ha => ⟨ha.1, h.annotations.names ha.2⟩
    complete := fun a ha => (hk.complete a ha).imp fun _ hi => ⟨hi.1, h.annotations.names hi.2⟩ }

/-! ## One key for each entry -/

section biUnique

variable (hp : p.WellFormed)

include hp

theorem biUnique_typeKey : Relator.BiUnique (TypeKey.Codes p) :=
  ⟨fun _ _ _ hk hl => congrArg TypeKey.mk (hk.left_inj hl), fun _ _ _ hx hy => hx.right_inj hp.strings hy⟩

theorem biUnique_typesCode : Relator.BiUnique (TypesCode p) :=
  ⟨fun _ _ _ hk hl => List.left_unique_forall₂' (biUnique_names hp.types).1 hk hl,
    fun _ _ _ hx hy => List.right_unique_forall₂' (biUnique_names hp.types).2 hx hy⟩

theorem biUnique_typeListKey : Relator.BiUnique (TypeListKey.Codes p) :=
  ⟨fun _ _ _ hk hl => congrArg TypeListKey.mk ((biUnique_typesCode hp).1 hk.2 hl.2),
    fun _ _ _ hx hy => (biUnique_typesCode hp).2 hx.2 hy.2⟩

theorem biUnique_typeListCode : Relator.BiUnique (TypeListCode p) := by
  refine ⟨fun k l ts hk hl => ?_, fun k ts us hx hy => ?_⟩
  · cases k <;> cases l
    · rfl
    · exact absurd hl.1 hk
    · exact absurd hk.1 hl
    · exact congrArg some (hk.2.left_inj hl.2)
  · cases k with
    | none => exact (not_not.mp hx).trans (not_not.mp hy).symm
    | some h => exact hx.2.right_inj hp.typeLists hy.2

theorem biUnique_protoKey : Relator.BiUnique (ProtoKey.Codes p) := by
  refine ⟨fun ⟨s, r, ts⟩ ⟨s', r', ts'⟩ q hk hl => ?_, fun k ⟨ts, r⟩ ⟨ts', r'⟩ hx hy => ?_⟩
  · obtain rfl : s = s' := hk.shorty.left_inj hl.shorty
    obtain rfl : r = r' := hk.returnType.left_inj hl.returnType
    obtain rfl : ts = ts' := (biUnique_typeListCode hp).1 hk.parameters hl.parameters
    rfl
  · obtain rfl : ts = ts' := (biUnique_typeListCode hp).2 hx.parameters hy.parameters
    obtain rfl : r = r' := hx.returnType.right_inj hp.types hy.returnType
    rfl

theorem biUnique_fieldKey : Relator.BiUnique (FieldKey.Codes p) := by
  refine ⟨fun ⟨c, n, t⟩ ⟨c', n', t'⟩ f hk hl => ?_, fun k ⟨c, n, t⟩ ⟨c', n', t'⟩ hx hy => ?_⟩
  · obtain rfl : c = c' := hk.definingClass.left_inj hl.definingClass
    obtain rfl : n = n' := hk.name.left_inj hl.name
    obtain rfl : t = t' := hk.type.left_inj hl.type
    rfl
  · obtain rfl : c = c' := hx.definingClass.right_inj hp.types hy.definingClass
    obtain rfl : n = n' := hx.name.right_inj hp.strings hy.name
    obtain rfl : t = t' := hx.type.right_inj hp.types hy.type
    rfl

theorem biUnique_methodKey : Relator.BiUnique (MethodKey.Codes p) := by
  refine ⟨fun ⟨c, n, r⟩ ⟨c', n', r'⟩ m hk hl => ?_, fun k ⟨c, n, ts, r⟩ ⟨c', n', ts', r'⟩ hx hy => ?_⟩
  · obtain rfl : c = c' := hk.definingClass.left_inj hl.definingClass
    obtain rfl : n = n' := hk.name.left_inj hl.name
    obtain rfl : r = r' := hk.proto.left_inj hl.proto
    rfl
  · obtain rfl : c = c' := hx.definingClass.right_inj hp.types hy.definingClass
    obtain rfl : n = n' := hx.name.right_inj hp.strings hy.name
    cases hx.proto.right_inj hp.protos hy.proto
    rfl

theorem biUnique_memberKey : Relator.BiUnique (MemberKey.Codes p) := by
  refine ⟨fun k l m hk hl => ?_, fun k m n hx hy => ?_⟩
  · cases m <;> cases k <;> cases l <;>
      first | exact congrArg _ (Handle.Names.left_inj hk hl) | exact hk.elim | exact hl.elim
  · cases k <;> cases m <;> cases n <;>
      first
      | exact congrArg _ (Handle.Names.right_inj hp.fields hx hy)
      | exact congrArg _ (Handle.Names.right_inj hp.methods hx hy)
      | exact hx.elim
      | exact hy.elim

theorem biUnique_methodHandleKey : Relator.BiUnique (MethodHandleKey.Codes p) := by
  refine ⟨fun ⟨c, k⟩ ⟨c', k'⟩ m hk hl => ?_, fun k ⟨c, m, hm⟩ ⟨c', m', hm'⟩ hx hy => ?_⟩
  · obtain rfl : c = c' := hk.kind.trans hl.kind.symm
    obtain rfl : k = k' := (biUnique_memberKey hp).1 hk.member hl.member
    rfl
  · obtain rfl : c = c' := hx.kind.symm.trans hy.kind
    obtain rfl : m = m' := (biUnique_memberKey hp).2 hx.member hy.member
    rfl

theorem biUnique_callSiteKey : Relator.BiUnique (CallSiteKey.Codes p) :=
  ⟨fun _ _ _ hk hl => congrArg CallSiteKey.mk (hk.left_inj hl),
    fun _ _ _ hx hy => Pools.values_injective (hx.right_inj hp.arrays hy)⟩

theorem biUnique_annotationSetKey : Relator.BiUnique (AnnotationSetKey.Codes p) := by
  refine ⟨fun ⟨ks⟩ ⟨ls⟩ as hk hl => ?_, fun k as bs hx hy => ?_⟩
  · have hsub {ks ls : List (Handle AnnotationItem)} (hk : AnnotationSetKey.Codes p ⟨ks⟩ as)
        (hl : AnnotationSetKey.Codes p ⟨ls⟩ as) : ∀ h ∈ ks, h ∈ ls := fun h hh => by
      obtain ⟨a, ha, hnames⟩ := hk.named h hh
      obtain ⟨h', hh', hnames'⟩ := hl.complete a ha
      exact hnames.left_inj hnames' ▸ hh'
    exact congrArg AnnotationSetKey.mk <|
      eq_of_pairwise_lt id compare hk.ascending hl.ascending fun h => ⟨hsub hk hl h, hsub hl hk h⟩
  · have hsub {as bs : List AnnotationItem} (hx : k.Codes p as) (hy : k.Codes p bs) : ∀ a ∈ as, a ∈ bs := fun a ha => by
      obtain ⟨h, hh, hnames⟩ := hx.complete a ha
      obtain ⟨b, hb, hnames'⟩ := hy.named h hh
      exact hnames.right_inj hp.annotations hnames' ▸ hb
    exact eq_of_pairwise_lt id compare hx.proper.2 hy.proper.2 fun a => ⟨hsub hx hy a, hsub hy hx a⟩

end biUnique

/-! ## Arenas and pools -/

/-- The arenas hold codes of what is in the pools `p`, and the handles in them stand for
entries of `q`. -/
structure Arenas.Codes (q : Pools) (a : Arenas) (p : Pools) : Prop where
  strings : a.strings.Codes Eq p.strings
  types : a.types.Codes (TypeKey.Codes q) p.types
  typeLists : a.typeLists.Codes (TypeListKey.Codes q) p.typeLists
  protos : a.protos.Codes (ProtoKey.Codes q) p.protos
  fields : a.fields.Codes (FieldKey.Codes q) p.fields
  methods : a.methods.Codes (MethodKey.Codes q) p.methods
  handles : a.handles.Codes (MethodHandleKey.Codes q) p.handles
  arrays : a.arrays.Codes Eq p.arrays
  callSites : a.callSites.Codes (CallSiteKey.Codes q) p.callSites
  annotations : a.annotations.Codes Eq p.annotations
  annotationSets : a.annotationSets.Codes (AnnotationSetKey.Codes q) p.annotationSets

theorem Arenas.codes_empty : Arenas.Codes {} {} {} where
  strings := Arena.codes_empty _
  types := Arena.codes_empty _
  typeLists := Arena.codes_empty _
  protos := Arena.codes_empty _
  fields := Arena.codes_empty _
  methods := Arena.codes_empty _
  handles := Arena.codes_empty _
  arrays := Arena.codes_empty _
  callSites := Arena.codes_empty _
  annotations := Arena.codes_empty _
  annotationSets := Arena.codes_empty _

theorem Arenas.Codes.mono {a : Arenas} {p q r : Pools} (h : q.Extends r) (hc : Arenas.Codes q a p) : Arenas.Codes r a p where
  strings := hc.strings
  types := hc.types.imp fun _ _ => .mono h
  typeLists := hc.typeLists.imp fun _ _ => .mono h
  protos := hc.protos.imp fun _ _ => .mono h
  fields := hc.fields.imp fun _ _ => .mono h
  methods := hc.methods.imp fun _ _ => .mono h
  handles := hc.handles.imp fun _ _ => .mono h
  arrays := hc.arrays
  callSites := hc.callSites.imp fun _ _ => .mono h
  annotations := hc.annotations
  annotationSets := hc.annotationSets.imp fun _ _ => .mono h

end Builder

end Dalvik
