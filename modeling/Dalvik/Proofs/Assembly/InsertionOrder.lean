import Dalvik.Proofs.Assembly.Agreement
import Dalvik.Proofs.Assembly.Ranks

/-!
# The order of requests

What an assembly holds depends on the requests alone and not on their order, as
long as no two of them add classes of one type (`has_gather`,
`classes_gather`). Finalizing then ranks the same entries alike, the classes are
arranged alike, and the same file is written (`write_agree_of_perm`).
-/

namespace Dalvik

/-! ## The order of classes -/

namespace ClassDef

variable {α : Type}

theorem sortedBy_eq_mergeSort (key : α → SortKey) (members : List α) :
    sortedBy key members = members.mergeSort fun a b => (SortKey.compare (key a) (key b)).isLE := by
  have hmap := List.map_mergeSort (r := fun a b => (SortKey.compare (key a) (key b)).isLE)
    (s := fun a b => (SortKey.compare a.1 b.1).isLE) (f := fun m => (key m, m)) (l := members) fun _ _ _ _ => rfl
  rw [sortedBy, ← hmap, List.map_map]
  exact List.map_id' _

theorem sortedBy_perm (key : α → SortKey) (members : List α) : (sortedBy key members).Perm members := by
  rw [sortedBy_eq_mergeSort]
  exact List.mergeSort_perm ..

theorem sortedBy_pairwise (key : α → SortKey) (members : List α) :
    (sortedBy key members).Pairwise fun a b => (SortKey.compare (key a) (key b)).isLE = true := by
  rw [sortedBy_eq_mergeSort]
  exact mergeSort_pairwise_isLE_on key SortKey.compare members

/-- Members with different sort keys ascend strictly. -/
theorem sortedBy_pairwise_lt {key : α → SortKey} {members : List α} (hnodup : (members.map key).Nodup) :
    (sortedBy key members).Pairwise fun a b => SortKey.compare (key a) (key b) = .lt := by
  have hnodup : (sortedBy key members).Pairwise fun a b => key a ≠ key b :=
    List.pairwise_map.mp (((sortedBy_perm key members).map key).nodup_iff.mpr hnodup)
  refine ((sortedBy_pairwise key members).and hnodup).imp fun {a b} ⟨hle, hne⟩ => ?_
  cases hc : SortKey.compare (key a) (key b) with
  | lt => rfl
  | eq => exact absurd (Std.LawfulEqCmp.eq_of_compare hc) hne
  | gt => rw [hc] at hle; cases hle

/-- Members that are in order stay as they are. -/
theorem sortedBy_of_pairwise {key : α → SortKey} {members : List α}
    (h : members.Pairwise fun a b => (SortKey.compare (key a) (key b)).isLE = true) : sortedBy key members = members := by
  rw [sortedBy_eq_mergeSort]
  exact List.mergeSort_of_pairwise h

/-- The order of members with different sort keys is given by their set. -/
theorem sortedBy_eq_of_perm {key : α → SortKey} {members members' : List α} (h : members.Perm members')
    (hnodup : (members.map key).Nodup) : sortedBy key members = sortedBy key members' :=
  eq_of_pairwise_lt key SortKey.compare (sortedBy_pairwise_lt hnodup)
    (sortedBy_pairwise_lt ((h.map key).nodup_iff.mp hnodup)) fun a => by
      rw [(sortedBy_perm key members).mem_iff, (sortedBy_perm key members').mem_iff, h.mem_iff]

end ClassDef

/-- The order of classes of different types is given by their set. -/
theorem ClassOrder.arrange_eq_of_perm {classes classes' : List ClassDef} (h : classes.Perm classes')
    (hnodup : (classes.map (·.type)).Nodup) : arrange classes = arrange classes' := by
  have hkeys : (classes.map fun c => SortKey.ofString c.type).Nodup := by
    have := hnodup.map SortKey.ofString_injective
    rwa [List.map_map] at this
  rw [arrange, ClassDef.sortedBy_eq_of_perm h hkeys, ← arrange]

namespace Pools

/-! ## Pools with the same entries -/

theorem NumbersKeys.agree {α : Type} [BEq α] [Hashable α] {p q : Pool α} {n m : α → Result UInt32}
    (hn : NumbersKeys p n) (hm : NumbersKeys q m) (hmem : ∀ a, a ∈ p.keys ↔ a ∈ q.keys) (halike : p.Alike q) (key : α) :
    Result.Agree (n key) (m key) := by
  by_cases hkey : key ∈ p.keys
  · rw [(hn key).1 hkey, (hm key).1 ((hmem key).mp hkey), halike.indexOrNone_eq]
    exact .rfl
  · exact .of_fails ((hn key).2 hkey) ((hm key).2 (mt (hmem key).mpr hkey))

/-- Pools with the same entries rank them alike, so that blueprints made of them
are alike. -/
theorem Ranked.alike {p q : Pools} (hp : p.Ranked) (hq : q.Ranked) (hpc : p.Closed) (hqc : q.Closed)
    (h : ∀ e, p.Has e ↔ q.Has e) (opcodes : Opcodes) (classes : List ClassDef) :
    Blueprint.Alike ⟨opcodes, p, classes⟩ ⟨opcodes, q, classes⟩ := by
  have strings := hp.strings.alike SortKey.ofString SortKey.compare hq.strings fun s => h (.string s)
  have types := hp.types.alike SortKey.ofString SortKey.compare hq.types fun d => h (.type d)
  have protos := hp.protos.alike SortKey.ofProto SortKey.compare hq.protos fun r => h (.proto r)
  have fields := hp.fields.alike SortKey.ofField SortKey.compare hq.fields fun f => h (.field f)
  have methods := hp.methods.alike SortKey.ofMethod SortKey.compare hq.methods fun m => h (.method m)
  have handles := hp.handles.alike SortKey.ofHandle SortKey.compare hq.handles fun k => h (.handle k)
  have callSites := hp.callSites.alike CallSite.values Value.compareValues hq.callSites fun c => h (.callSite c)
  have hn := hp.numbers hpc
  have hm := hq.numbers hqc
  exact {
    opcodes := rfl
    classes := rfl
    strings, types, protos, fields, methods, handles, callSites
    typeLists := hp.typeLists.alike SortKey.ofStrings SortKey.compare hq.typeLists fun ts => h (.typeList ts)
    arrays := hp.arrays.alike id Value.compareValues hq.arrays fun vs => h (.array vs)
    annotations := hp.annotations.alike id compare hq.annotations fun a => h (.annotationItem a)
    annotationSets := hp.annotationSets.alike id (List.compareLex compare) hq.annotationSets fun as =>
      h (.annotationSet as)
    numbering := {
      string := hn.string.agree hm.string (fun s => h (.string s)) strings
      type := hn.type.agree hm.type (fun d => h (.type d)) types
      field := hn.field.agree hm.field (fun f => h (.field f)) fields
      method := hn.method.agree hm.method (fun m => h (.method m)) methods
      proto := hn.proto.agree hm.proto (fun r => h (.proto r)) protos
      handle := hn.handle.agree hm.handle (fun k => h (.handle k)) handles
      callSite := hn.callSite.agree hm.callSite (fun c => h (.callSite c)) callSites } }

end Pools

namespace Assembly

/-! ## What requests make -/

/-- The types of the classes that are added. -/
def addedTypes (requests : List Request) : List String :=
  (requests.filterMap Request.class?).map (·.type)

/-- A request adds a class of a new type, if no two requests add classes of one
type. -/
theorem defines_eq_false {opcodes : Opcodes} {requests : List Request} {r : Request}
    (hclasses : (gather opcodes requests).classes.toList = requests.filterMap Request.class?)
    (hdistinct : (addedTypes (requests ++ [r])).Nodup) {c : ClassDef} (hr : r.class? = some c) :
    (gather opcodes requests).defines c.type = false := by
  rw [addedTypes, List.filterMap_append, List.map_append, List.nodup_append] at hdistinct
  have hc : c.type ∈ ([r].filterMap Request.class?).map (·.type) := by simp [hr]
  rw [← Bool.not_eq_true, (gathered_gather opcodes requests).claimed, hclasses]
  exact fun hold => hdistinct.2.2 c.type hold c.type hc rfl

/-- Requests that add no two classes of one type all make what they are about. -/
theorem gather_concat {opcodes : Opcodes} {requests : List Request} {r : Request}
    (hclasses : (gather opcodes requests).classes.toList = requests.filterMap Request.class?)
    (hdistinct : (addedTypes (requests ++ [r])).Nodup) :
    gather opcodes (requests ++ [r]) = (gather opcodes requests).adding r := by
  have hafter : gather opcodes (requests ++ [r]) = (gather opcodes requests).after r := by
    rw [gather, gather, List.foldl_append]
    rfl
  rw [hafter, after_eq (gathered_gather opcodes requests).growing]
  cases hr : r.class? with
  | none => rfl
  | some c =>
    rw [Option.any_some, defines_eq_false hclasses hdistinct hr]
    rfl

theorem nodup_of_concat {requests : List Request} {r : Request} (h : (addedTypes (requests ++ [r])).Nodup) :
    (addedTypes requests).Nodup := by
  rw [addedTypes, List.filterMap_append, List.map_append] at h
  exact h.of_append_left

theorem classes_gather (opcodes : Opcodes) {requests : List Request} (h : (addedTypes requests).Nodup) :
    (gather opcodes requests).classes.toList = requests.filterMap Request.class? := by
  induction requests using List.reverseRecOn with
  | nil => rfl
  | append_singleton requests r ih =>
    have ih := ih (nodup_of_concat h)
    rw [gather_concat ih h, adding, Array.toList_append, ih, List.filterMap_append]
    cases hr : r.class? <;> simp [hr]

/-- The entries after some requests are those that the requests make. -/
theorem has_gather (opcodes : Opcodes) {requests : List Request} (h : (addedTypes requests).Nodup) (e : Entry) :
    (gather opcodes requests).pools.Has e ↔ e ∈ requests.flatMap Request.entries := by
  induction requests using List.reverseRecOn with
  | nil => simpa [gather] using Pools.not_has_empty e
  | append_singleton requests r ih =>
    have hgrowing := (gathered_gather opcodes requests).growing
    have hconcat := gather_concat (classes_gather opcodes (nodup_of_concat h)) h
    rw [hconcat, adding, hgrowing.has_insertAll, ih (nodup_of_concat h)]
    simp [or_comm]

theorem opcodes_gather (opcodes : Opcodes) (requests : List Request) : (gather opcodes requests).opcodes = opcodes := by
  induction requests using List.reverseRecOn with
  | nil => rfl
  | append_singleton requests r ih =>
    rw [gather, List.foldl_append, ← gather, List.foldl_cons, List.foldl_nil,
      after_eq (gathered_gather opcodes requests).growing]
    split
    · exact ih
    · exact ih

/-! ## What is written -/

theorem on_write {a : Assembly} (h : a.pools.Ranked) : write.on a = (a.blueprint.write, a.recordStrings) := by
  have hfinalized : a.isFinalized = true := h.strings.isFinalized
  unfold write
  simp only [on_bind, on_get, hfinalized, Bool.not_true, Bool.false_eq_true, if_false, on_set, on_ofResult]

section perm

variable (opcodes : Opcodes) {first second : List Request} (hperm : first.Perm second)
  (hdistinct : (addedTypes first).Nodup)

include hperm hdistinct

/-- In whatever order the same requests come, as long as no two of them add classes of
one type: the file is made from the same. -/
theorem blueprint_alike_of_perm :
    (gather opcodes first).finalized.blueprint.Alike (gather opcodes second).finalized.blueprint := by
  have hdistinct' : (addedTypes second).Nodup :=
    ((hperm.filterMap Request.class?).map ClassDef.type).nodup_iff.mp hdistinct
  have h := gathered_gather opcodes first
  have h' := gathered_gather opcodes second
  have hhas : ∀ e, (gather opcodes first).pools.finalized.Has e ↔ (gather opcodes second).pools.finalized.Has e := by
    intro e
    rw [Pools.has_finalized, Pools.has_finalized, has_gather opcodes hdistinct, has_gather opcodes hdistinct',
      (hperm.flatMap_right _).mem_iff]
  have harrange : ClassOrder.arrange (gather opcodes first).classes.toList =
      ClassOrder.arrange (gather opcodes second).classes.toList := by
    rw [classes_gather opcodes hdistinct, classes_gather opcodes hdistinct']
    exact ClassOrder.arrange_eq_of_perm (hperm.filterMap _) hdistinct
  simp only [blueprint, finalized, opcodes_gather, harrange]
  exact h.growing.ranked_finalized.alike h'.growing.ranked_finalized h.closed.finalized h'.closed.finalized hhas _ _

/-- Once the assembly is finalized the same bytes are written, or writing fails. -/
theorem write_agree_of_perm :
    Result.Agree (write.on (gather opcodes first).finalized).1 (write.on (gather opcodes second).finalized).1 := by
  rw [on_write (a := (gather opcodes first).finalized) (gathered_gather opcodes first).growing.ranked_finalized,
    on_write (a := (gather opcodes second).finalized) (gathered_gather opcodes second).growing.ranked_finalized]
  exact (blueprint_alike_of_perm opcodes hperm hdistinct).write

/-- The pools are of one size. -/
theorem bounded_of_perm (hbounded : (gather opcodes first).pools.Bounded) : (gather opcodes second).pools.Bounded :=
  have h := blueprint_alike_of_perm opcodes hperm hdistinct
  { strings := h.strings.size_eq ▸ hbounded.strings
    types := h.types.size_eq ▸ hbounded.types
    typeLists := h.typeLists.size_eq ▸ hbounded.typeLists
    protos := h.protos.size_eq ▸ hbounded.protos
    fields := h.fields.size_eq ▸ hbounded.fields
    methods := h.methods.size_eq ▸ hbounded.methods
    handles := h.handles.size_eq ▸ hbounded.handles
    arrays := h.arrays.size_eq ▸ hbounded.arrays
    callSites := h.callSites.size_eq ▸ hbounded.callSites
    annotations := h.annotations.size_eq ▸ hbounded.annotations
    annotationSets := h.annotationSets.size_eq ▸ hbounded.annotationSets }

end perm

end Assembly

end Dalvik
