import Dalvik.Proofs.Assembly.Lowering
import Dalvik.Proofs.Assembly.Rereading
import Mathlib.Data.List.Infix

/-!
# The entries of a file that is written again

When what is read of a file is written again, the pools hold what they held before but
for strings that nothing names any more (`Blueprint.Orderly.thins_content`). Strings come
in the same order, so that their indices get no larger, and all other indices stay.
-/

namespace Dalvik

open Assembly

/-! ## Fewer keys -/

theorem idxOf_le_of_sublist {α : Type} [BEq α] [LawfulBEq α] {l l' : List α} (h : l'.Sublist l) (hnodup : l.Nodup)
    {a : α} (ha : a ∈ l') : l'.idxOf a ≤ l.idxOf a := by
  induction h with
  | slnil => cases ha
  | @cons l' l b hsub ih =>
    obtain ⟨hb, hnodup⟩ := List.nodup_cons.mp hnodup
    have hne : b ≠ a := fun heq => hb (heq ▸ hsub.subset ha)
    rw [List.idxOf_cons_ne _ hne]
    exact Nat.le_succ_of_le (ih hnodup ha)
  | @cons_cons l' l b _ ih =>
    obtain ⟨-, hnodup⟩ := List.nodup_cons.mp hnodup
    by_cases heq : b = a
    · rw [heq, List.idxOf_cons_self]
      exact Nat.zero_le _
    · rw [List.idxOf_cons_ne _ heq, List.idxOf_cons_ne _ heq]
      exact Nat.succ_le_succ (ih hnodup ((List.mem_cons.mp ha).resolve_left (Ne.symm heq)))

/-- The keys of a pool that has fewer of them come in the same order. -/
theorem Pool.Ranked.sublist {α σ : Type} [BEq α] [Hashable α] {p q : Pool α} (key : α → σ) (cmp : σ → σ → Ordering)
    [Std.TransCmp cmp] (hp : p.Ranked fun a b => cmp (key a) (key b) = .lt)
    (hq : q.Ranked fun a b => cmp (key a) (key b) = .lt) (hsub : ∀ a ∈ q.keys, a ∈ p.keys) :
    q.sortedKeys.Sublist p.sortedKeys := by
  have hantisymm : Std.Antisymm fun a b => cmp (key a) (key b) = .lt := ⟨fun a b hab hba => by
    rw [show cmp (key b) (key a) = (cmp (key a) (key b)).swap from Std.OrientedCmp.eq_swap, hab] at hba
    cases hba⟩
  refine List.sublist_of_subperm_of_pairwise ?_ hq.ascending hp.ascending
  exact List.subperm_of_subset hq.nodup fun a ha => hp.mem_sortedKeys.mpr (hsub a (hq.mem_sortedKeys.mp ha))

namespace Blueprint

/-- The second blueprint is that of what a file gives back of the first: it has lost no
more than strings, and no index has grown. -/
structure Thins (b b' : Blueprint) : Prop where
  covers : b'.opcodes.Covers b.opcodes
  classes : b'.classes = b.classes.map ClassDef.kept
  strings : b'.pools.strings.sortedKeys.Sublist b.pools.strings.sortedKeys
  types : b.pools.types.Alike b'.pools.types
  typeLists : b.pools.typeLists.Alike b'.pools.typeLists
  protos : b.pools.protos.Alike b'.pools.protos
  fields : b.pools.fields.Alike b'.pools.fields
  methods : b.pools.methods.Alike b'.pools.methods
  handles : b.pools.handles.Alike b'.pools.handles
  arrays : b.pools.arrays.Alike b'.pools.arrays
  callSites : b.pools.callSites.Alike b'.pools.callSites
  annotations : b.pools.annotations.Alike b'.pools.annotations
  annotationSets : b.pools.annotationSets.Alike b'.pools.annotationSets
  lowers : b.pools.numbering.Lowers b'.pools.numbering

section pools

variable {b b' : Blueprint} {t : DataTables} {image : Image} (h : b.Opens t image) (hc : b.Complete) (hc' : b'.Complete)
  (hsub : ∀ e, b'.pools.Has e → b.pools.Has e) (hkeeps : ∀ e, b.pools.Has e → b'.pools.Has e ∨ ∃ s, e = .string s)

include hc hc' hsub hkeeps

/-- Pools that have lost no more than strings rank the other keys alike. -/
theorem thins_of_has (h : b.Opens t image) (hcovers : b'.opcodes.Covers b.opcodes)
    (hclasses : b'.classes = b.classes.map ClassDef.kept) : b.Thins b' := by
  have hr := hc.ranked
  have hr' := hc'.ranked
  have hiff {α : Type} (entry : α → Entry) (hne : ∀ a s, entry a ≠ .string s) (a : α) :
      b.pools.Has (entry a) ↔ b'.pools.Has (entry a) :=
    ⟨fun ha => (hkeeps _ ha).resolve_right fun ⟨s, hs⟩ => hne a s hs, hsub _⟩
  have strings := hr.strings.sublist SortKey.ofString SortKey.compare hr'.strings fun s => hsub (.string s)
  have types := hr.types.alike SortKey.ofString SortKey.compare hr'.types (hiff .type nofun)
  have protos := hr.protos.alike SortKey.ofProto SortKey.compare hr'.protos (hiff .proto nofun)
  have fields := hr.fields.alike SortKey.ofField SortKey.compare hr'.fields (hiff .field nofun)
  have methods := hr.methods.alike SortKey.ofMethod SortKey.compare hr'.methods (hiff .method nofun)
  have handles := hr.handles.alike SortKey.ofHandle SortKey.compare hr'.handles (hiff .handle nofun)
  have callSites := hr.callSites.alike CallSite.values Value.compareValues hr'.callSites (hiff .callSite nofun)
  have hn := hr.numbers hc.closed
  have hm := hr'.numbers hc'.closed
  have hsame {α : Type} [BEq α] [Hashable α] {p q : Pool α} {n m : α → Result UInt32} (hn : Pools.NumbersKeys p n)
      (hm : Pools.NumbersKeys q m) (halike : p.Alike q) {a : α} {i j : UInt32} (hi : n a = .ok i) (hj : m a = .ok j) :
      j ≤ i := by
    obtain ⟨-, rfl⟩ := hn.of_eq_ok hi
    obtain ⟨-, rfl⟩ := hm.of_eq_ok hj
    exact UInt32.le_of_eq (halike.indexOrNone_eq a).symm
  exact {
    covers := hcovers
    classes := hclasses
    strings, types, protos, fields, methods, handles, callSites
    typeLists := hr.typeLists.alike SortKey.ofStrings SortKey.compare hr'.typeLists (hiff .typeList nofun)
    arrays := hr.arrays.alike id Value.compareValues hr'.arrays (hiff .array nofun)
    annotations := hr.annotations.alike id compare hr'.annotations (hiff .annotationItem nofun)
    annotationSets := hr.annotationSets.alike id (List.compareLex compare) hr'.annotationSets
      (hiff .annotationSet nofun)
    lowers := {
      string_lt := fun hi => ((h.undoes hr hc.closed).string hi).1
      type_lt := fun hi => ((h.undoes hr hc.closed).type hi).1
      le := fun {r i j} hi hj => by
        cases r with
        | string s =>
          obtain ⟨hs, rfl⟩ := hn.string.of_eq_ok hi
          obtain ⟨hs', rfl⟩ := hm.string.of_eq_ok hj
          have hplace : b'.pools.strings.place s ≤ b.pools.strings.place s :=
            idxOf_le_of_sublist strings hr.strings.nodup (hr'.strings.mem_sortedKeys.mpr hs')
          have hlength : b.pools.strings.sortedKeys.length = (b.stringIds t.toDataOffsets).length :=
            (List.length_map _).symm
          have hindex := h.identified.strings.toNat_index hr.strings hlength hs
          have hlt : b.pools.strings.place s < UInt32.size := hindex ▸ (b.pools.strings.indexOrNone s).toNat_lt
          rw [UInt32.le_iff_toNat_le, hindex, hr'.strings.indexOrNone_eq hs',
            UInt32.toNat_ofNat_of_lt' (Nat.lt_of_le_of_lt hplace hlt)]
          exact hplace
        | type d => exact hsame hn.type hm.type types hi hj
        | field f => exact hsame hn.field hm.field fields hi hj
        | method k => exact hsame hn.method hm.method methods hi hj
        | proto q => exact hsame hn.proto hm.proto protos hi hj
        | handle k => exact hsame hn.handle hm.handle handles hi hj
        | callSite k => exact hsame hn.callSite hm.callSite callSites hi hj } }

end pools

/-- What is read of a file is written with what the file held, but for strings that
nothing names any more. -/
theorem Orderly.thins_content {b : Blueprint} {t : DataTables} {image : Image} (h : b.Opens t image) (hb : b.Orderly)
    (hcovers : image.opcodes.Covers b.opcodes) (hreadable : ∀ c ∈ b.classes, c.Readable) :
    b.Thins (gather image.opcodes (b.content image.opcodes).requests).finalized.blueprint := by
  have hcanonical := hb.canonical_content image.opcodes hreadable
  have hopcodes : (gather image.opcodes (b.content image.opcodes).requests).finalized.blueprint.opcodes =
      image.opcodes := (b.content image.opcodes).opcodes_blueprint
  have hentries (e : Entry) : e ∈ (b.content image.opcodes).entries ↔
      (∃ c ∈ b.classes, e ∈ Entry.ofClass c.kept) ∨ ∃ m ∈ (b.content image.opcodes).markers, .string m.text = e := by
    rw [DexFile.entries, content, List.mem_append, List.flatMap_map, List.mem_flatMap, List.mem_map]
  refine thins_of_has hb.toComplete hcanonical.settled.toComplete (fun e he => ?_) (fun e he => ?_) h
    (by rw [hopcodes]; exact hcovers) (hcanonical.classes_blueprint.trans (hb.arrange_content image.opcodes))
  · rcases (hentries e).mp ((hcanonical.has_iff e).mp he) with ⟨c, hc, he⟩ | ⟨m, hm, rfl⟩
    · exact hb.has c hc e ((hb.innerArranged c hc).thins_ofClass.subset he)
    · obtain ⟨s, hs, hparse⟩ := List.mem_filterMap.mp hm
      rw [← (Marker.parse?_eq_some_iff.mp hparse).1]
      exact hb.ranked.strings.mem_sortedKeys.mp hs
  · rcases hb.made e he with ⟨c, hc, he⟩ | hs
    · refine ((hb.innerArranged c hc).thins_ofClass.keeps e he).imp_left fun he => ?_
      exact (hcanonical.has_iff e).mpr ((hentries e).mpr (.inl ⟨c, hc, he⟩))
    · exact .inr hs

end Blueprint

end Dalvik
