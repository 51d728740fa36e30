import Dalvik.Builder.Arenas
import Dalvik.Proofs.Assembly.Gathering

/-!
# Ranks

Finalizing sorts the entries of a pool by the strings that they are made of. They also
have ranks: the indices of their parts, the most significant first. As long as there are no
more entries than indices, each index is the place of a string, or of an entry that is made
of strings, so that ranks are in the order of the strings (`compare_protoRank` and so on).
-/

namespace Dalvik

/-! ## Lexicographic order -/

section compareLex

variable {α β γ : Type} {f : α → β} {g : α → γ} {cmp : β → β → Ordering} {cmp' : γ → γ → Ordering}

/-- Lists whose members compare alike compare alike. -/
theorem compareLex_map_congr {xs ys : List α} (h : ∀ x ∈ xs, ∀ y ∈ ys, cmp (f x) (f y) = cmp' (g x) (g y)) :
    List.compareLex cmp (xs.map f) (ys.map f) = List.compareLex cmp' (xs.map g) (ys.map g) := by
  induction xs generalizing ys with
  | nil => cases ys <;> rfl
  | cons x xs ih =>
    cases ys with
    | nil => rfl
    | cons y ys =>
      rw [List.map_cons, List.map_cons, List.map_cons, List.map_cons, List.compareLex_cons_cons, List.compareLex_cons_cons,
        h x List.mem_cons_self y List.mem_cons_self,
        ih fun x hx y hy => h x (List.mem_cons_of_mem _ hx) y (List.mem_cons_of_mem _ hy)]

end compareLex

namespace SortKey

theorem compare_ofString (s t : String) : SortKey.compare (ofString s) (ofString t) = Utf16.compare s t := by
  rw [ofString, ofString, compare_ofStrings_cons]
  cases Utf16.compare s t <;> rfl

end SortKey

namespace Builder

instance : Std.TransCmp compareRanks :=
  inferInstanceAs (Std.TransCmp (List.compareLex compare))

theorem compareRanks_cons (i j : UInt32) (is js : List UInt32) :
    compareRanks (i :: is) (j :: js) = (compare i j).then (compareRanks is js) :=
  List.compareLex_cons_cons

theorem compareRanks_singleton (i j : UInt32) : compareRanks [i] [j] = compare i j := by
  rw [compareRanks_cons]
  cases compare i j <;> rfl

/-- Ranks that compare so are in the order of lists. -/
theorem compareRanks_eq_lt {is js : List UInt32} : compareRanks is js = .lt ↔ is < js :=
  compareLex_eq_lt Std.compare_eq_lt

end Builder

namespace Pools

variable {p : Pools}

/-! ## The order of strings and of types -/

namespace Ranked

theorem string_lt_iff (hr : p.Ranked) {s t : String} (hs : p.Has (.string s)) (ht : p.Has (.string t)) :
    p.strings.place s < p.strings.place t ↔ Utf16.compare s t = .lt := by
  rw [← SortKey.compare_ofString]
  exact hr.strings.place_lt_iff SortKey.ofString hs ht

theorem type_lt_iff (hr : p.Ranked) {d e : String} (hd : p.Has (.type d)) (he : p.Has (.type e)) :
    p.types.place d < p.types.place e ↔ Utf16.compare d e = .lt := by
  rw [← SortKey.compare_ofString]
  exact hr.types.place_lt_iff SortKey.ofString hd he

end Ranked

/-! ## Bounds -/

/-- No pool has more keys than there are indices. -/
structure Bounded (p : Pools) : Prop where
  strings : p.strings.size ≤ UInt32.size
  types : p.types.size ≤ UInt32.size
  typeLists : p.typeLists.size ≤ UInt32.size
  protos : p.protos.size ≤ UInt32.size
  fields : p.fields.size ≤ UInt32.size
  methods : p.methods.size ≤ UInt32.size
  handles : p.handles.size ≤ UInt32.size
  arrays : p.arrays.size ≤ UInt32.size
  callSites : p.callSites.size ≤ UInt32.size
  annotations : p.annotations.size ≤ UInt32.size
  annotationSets : p.annotationSets.size ≤ UInt32.size

/-! ## Ranks -/

/-- The index of the descriptor of a type. -/
def typeRank (p : Pools) (descriptor : String) : List UInt32 :=
  [p.strings.indexOrNone descriptor]

/-- The indices of the types of a list. -/
def typeListRank (p : Pools) (types : List String) : List UInt32 :=
  types.map p.types.indexOrNone

/-- The indices of the return type and of the types of the parameters. -/
def protoRank (p : Pools) (q : Prototype) : List UInt32 :=
  p.types.indexOrNone q.returnType :: p.typeListRank q.parameters

/-- The indices of the class, the name and the type of a field. -/
def fieldRank (p : Pools) (f : FieldSig) : List UInt32 :=
  [p.types.indexOrNone f.definingClass, p.strings.indexOrNone f.name, p.types.indexOrNone f.type]

/-- The indices of the class, the name and the prototype of a method. -/
def methodRank (p : Pools) (m : MethodSig) : List UInt32 :=
  [p.types.indexOrNone m.definingClass, p.strings.indexOrNone m.name, p.protos.indexOrNone m.proto]

/-- The index of the member of a handle. -/
def memberIndex (p : Pools) : HandleMember → UInt32
  | .field f => p.fields.indexOrNone f
  | .method m => p.methods.indexOrNone m

/-- The number of the kind and the index of the member of a handle. -/
def handleRank (p : Pools) (h : MethodHandle) : List UInt32 :=
  [UInt32.ofNat h.kind.code, p.memberIndex h.member]

/-- The index of the values of a call site. -/
def callSiteRank (p : Pools) (c : CallSite) : List UInt32 :=
  [p.arrays.indexOrNone c.values]

/-- The indices of the annotations of a set. -/
def annotationSetRank (p : Pools) (annotations : List AnnotationItem) : List UInt32 :=
  annotations.map p.annotations.indexOrNone

open Builder (compareRanks compareRanks_cons compareRanks_singleton)

namespace Ranked

variable (hr : p.Ranked) (hb : p.Bounded)

include hr hb

theorem compare_string {s t : String} (hs : p.Has (.string s)) (ht : p.Has (.string t)) :
    compare (p.strings.indexOrNone s) (p.strings.indexOrNone t) = Utf16.compare s t := by
  rw [← SortKey.compare_ofString]
  exact hr.strings.compare_indexOrNone hb.strings SortKey.ofString hs ht

theorem compare_type {d e : String} (hd : p.Has (.type d)) (he : p.Has (.type e)) :
    compare (p.types.indexOrNone d) (p.types.indexOrNone e) = Utf16.compare d e := by
  rw [← SortKey.compare_ofString]
  exact hr.types.compare_indexOrNone hb.types SortKey.ofString hd he

theorem compare_typeListRank {ts us : List String} (hts : ∀ d ∈ ts, p.Has (.type d)) (hus : ∀ d ∈ us, p.Has (.type d)) :
    compareRanks (p.typeListRank ts) (p.typeListRank us) = SortKey.compare (SortKey.ofStrings ts) (SortKey.ofStrings us) :=
  compareLex_map_congr fun d hd e he => hr.compare_type hb (hts d hd) (hus e he)

theorem compare_memberIndex {m n : HandleMember} (hkind : m.isField = n.isField) (hm : p.Has (Closed.memberEntry m))
    (hn : p.Has (Closed.memberEntry n)) :
    compare (p.memberIndex m) (p.memberIndex n) = SortKey.compare (SortKey.ofMember m) (SortKey.ofMember n) := by
  cases m with
  | field f =>
    cases n with
    | field g => exact hr.fields.compare_indexOrNone hb.fields SortKey.ofField hm hn
    | method n => cases hkind
  | method m =>
    cases n with
    | field g => cases hkind
    | method n => exact hr.methods.compare_indexOrNone hb.methods SortKey.ofMethod hm hn

variable (hc : p.Closed)

include hc

theorem compare_typeRank {d e : String} (hd : p.Has (.type d)) (he : p.Has (.type e)) :
    compareRanks (p.typeRank d) (p.typeRank e) = SortKey.compare (SortKey.ofString d) (SortKey.ofString e) := by
  rw [typeRank, typeRank, compareRanks_singleton, SortKey.compare_ofString]
  exact hr.compare_string hb (hc.string_of_type hd) (hc.string_of_type he)

theorem compare_protoRank {q r : Prototype} (hq : p.Has (.proto q)) (hr' : p.Has (.proto r)) :
    compareRanks (p.protoRank q) (p.protoRank r) = SortKey.compare (SortKey.ofProto q) (SortKey.ofProto r) := by
  rw [protoRank, protoRank, compareRanks_cons, SortKey.ofProto, SortKey.ofProto, SortKey.compare_ofStrings_cons,
    hr.compare_type hb (hc.returnType_of_proto hq) (hc.returnType_of_proto hr'),
    hr.compare_typeListRank hb (fun _ hd => hc.parameters_of_proto hq hd) fun _ hd => hc.parameters_of_proto hr' hd]

theorem compare_fieldRank {f g : FieldSig} (hf : p.Has (.field f)) (hg : p.Has (.field g)) :
    compareRanks (p.fieldRank f) (p.fieldRank g) = SortKey.compare (SortKey.ofField f) (SortKey.ofField g) := by
  rw [fieldRank, fieldRank, compareRanks_cons, compareRanks_cons, compareRanks_singleton, SortKey.ofField, SortKey.ofField,
    SortKey.compare_ofStrings_cons, SortKey.compare_ofStrings_cons,
    hr.compare_type hb (hc.definingClass_of_field hf) (hc.definingClass_of_field hg),
    hr.compare_string hb (hc.name_of_field hf) (hc.name_of_field hg),
    hr.compare_type hb (hc.type_of_field hf) (hc.type_of_field hg), ← SortKey.compare_ofString f.type]
  rfl

theorem compare_methodRank {m n : MethodSig} (hm : p.Has (.method m)) (hn : p.Has (.method n)) :
    compareRanks (p.methodRank m) (p.methodRank n) = SortKey.compare (SortKey.ofMethod m) (SortKey.ofMethod n) := by
  have hproto := hr.protos.compare_indexOrNone hb.protos SortKey.ofProto (hc.proto_of_method hm) (hc.proto_of_method hn)
  rw [methodRank, methodRank, compareRanks_cons, compareRanks_cons, compareRanks_singleton, hproto,
    hr.compare_type hb (hc.definingClass_of_method hm) (hc.definingClass_of_method hn),
    hr.compare_string hb (hc.name_of_method hm) (hc.name_of_method hn)]
  show _ = SortKey.compare (Utf16.encode m.definingClass :: Utf16.encode m.name :: SortKey.ofProto m.proto)
    (Utf16.encode n.definingClass :: Utf16.encode n.name :: SortKey.ofProto n.proto)
  rw [SortKey.compare_cons, SortKey.compare_cons]
  rfl

theorem compare_handleRank {h k : MethodHandle} (hh : p.Has (.handle h)) (hk : p.Has (.handle k)) :
    compareRanks (p.handleRank h) (p.handleRank k) = SortKey.compare (SortKey.ofHandle h) (SortKey.ofHandle k) := by
  rw [handleRank, handleRank, compareRanks_cons, compareRanks_singleton, SortKey.ofHandle, SortKey.ofHandle,
    SortKey.compare_cons, SortKey.compare_code]
  -- Members are compared only if the kinds are the same, and then both are fields or both methods.
  by_cases hkind : h.kind = k.kind
  · have hfield : h.member.isField = k.member.isField := by rw [← h.kind_fits, ← k.kind_fits, hkind]
    rw [hr.compare_memberIndex hb hfield (hc.member_of_handle hh) (hc.member_of_handle hk)]
  · cases hcode : List.compareLex compare [UInt16.ofNat h.kind.code] [UInt16.ofNat k.kind.code] with
    | eq => exact absurd (SortKey.code_injective (List.cons.inj (Std.LawfulEqCmp.eq_of_compare hcode)).1) hkind
    | lt => rfl
    | gt => rfl

theorem compare_callSiteRank {c d : CallSite} (hc' : p.Has (.callSite c)) (hd : p.Has (.callSite d)) :
    compareRanks (p.callSiteRank c) (p.callSiteRank d) = Value.compareValues c.values d.values := by
  rw [callSiteRank, callSiteRank, compareRanks_singleton]
  exact hr.arrays.compare_indexOrNone hb.arrays id (hc.array_of_callSite hc') (hc.array_of_callSite hd)

theorem compare_annotationSetRank {as bs : List AnnotationItem} (has : p.Has (.annotationSet as))
    (hbs : p.Has (.annotationSet bs)) :
    compareRanks (p.annotationSetRank as) (p.annotationSetRank bs) = List.compareLex compare as bs := by
  have hmem {as : List AnnotationItem} (has : p.Has (.annotationSet as)) {a : AnnotationItem} (ha : a ∈ as) :
      a ∈ p.annotations.keys :=
    hc.support (d := .annotationItem a) has (List.mem_map_of_mem ha)
  have hmap : compareRanks (p.annotationSetRank as) (p.annotationSetRank bs) =
      List.compareLex compare (as.map id) (bs.map id) :=
    compareLex_map_congr fun a ha b hb' => hr.annotations.compare_indexOrNone hb.annotations id (hmem has ha) (hmem hbs hb')
  rwa [List.map_id, List.map_id] at hmap

end Ranked

end Pools

namespace Assembly

/-! ## Finalizing after a history -/

/-- The assembly with its pools finalized. -/
def finalized (a : Assembly) : Assembly :=
  { a with pools := a.pools.finalized }

theorem on_finalize {a : Assembly} (h : a.pools.Growing) : finalize.on a = (.ok (), a.finalized) := by
  unfold finalize
  simp only [on_bind, on_get, isFinalized, h.isFinalized, Bool.false_eq_true, if_false, on_ofResult, h.finalize_eq,
    on_set, finalized]

/-! ## How much a history asks for -/

/-- Whatever is there has been asked for. -/
theorem mem_entries_of_has (opcodes : Opcodes) {requests : List Request} {e : Entry}
    (he : (gather opcodes requests).pools.Has e) : e ∈ requests.flatMap Request.entries := by
  induction requests using List.reverseRecOn with
  | nil => exact absurd he (Pools.not_has_empty e)
  | append_singleton requests r ih =>
    have hgrowing := (gathered_gather opcodes requests).growing
    rw [gather, List.foldl_append, ← gather, List.foldl_cons, List.foldl_nil, after_eq hgrowing] at he
    rw [List.flatMap_append, List.mem_append]
    split at he
    · exact .inl (ih he)
    · rcases hgrowing.has_insertAll.mp he with he | he
      · exact .inr (by simpa using he)
      · exact .inl (ih he)

/-- A history that asks for no more entries than there are indices stays within bounds. -/
theorem bounded_gather (opcodes : Opcodes) {requests : List Request}
    (h : (requests.flatMap Request.entries).length ≤ UInt32.size) : (gather opcodes requests).pools.Bounded := by
  have hgrowing := (gathered_gather opcodes requests).growing
  have hsize {α : Type} [BEq α] [Hashable α] [LawfulBEq α] {p : Pool α} (hp : p.Growing) {entry : α → Entry}
      (hentry : Function.Injective entry) (hhas : ∀ x ∈ p.keys, (gather opcodes requests).pools.Has (entry x)) :
      p.size ≤ UInt32.size :=
    (hp.wellFormed.size_le hentry fun x hx => mem_entries_of_has opcodes (hhas x hx)).trans h
  exact {
    strings := hsize hgrowing.strings (fun _ _ => Entry.string.inj) fun _ => id
    types := hsize hgrowing.types (fun _ _ => Entry.type.inj) fun _ => id
    typeLists := hsize hgrowing.typeLists (fun _ _ => Entry.typeList.inj) fun _ => id
    protos := hsize hgrowing.protos (fun _ _ => Entry.proto.inj) fun _ => id
    fields := hsize hgrowing.fields (fun _ _ => Entry.field.inj) fun _ => id
    methods := hsize hgrowing.methods (fun _ _ => Entry.method.inj) fun _ => id
    handles := hsize hgrowing.handles (fun _ _ => Entry.handle.inj) fun _ => id
    arrays := hsize hgrowing.arrays (fun _ _ => Entry.array.inj) fun _ => id
    callSites := hsize hgrowing.callSites (fun _ _ => Entry.callSite.inj) fun _ => id
    annotations := hsize hgrowing.annotations (fun _ _ => Entry.annotationItem.inj) fun _ => id
    annotationSets := hsize hgrowing.annotationSets (fun _ _ => Entry.annotationSet.inj) fun _ => id }

end Assembly

end Dalvik
