import Dalvik.Proofs.Builder.Classes
import Dalvik.Proofs.Builder.Spelling

/-!
# The order of interned classes

Interned classes are sorted by the indices of their types and walked by the handles of
their supertypes. As long as every type has an index and a handle of its own, that is the
order of the classes by the types themselves (`arrange_definition`).
-/

namespace Dalvik.Builder

variable {p : Pools} {a : Arenas}

/-! ## Tables by handles and by what they stand for -/

section tables

variable {κ α β : Type} [BEq κ] [LawfulBEq κ] [Hashable κ] [BEq α] [LawfulBEq α] [Hashable α]

/-- Maps that find the same for keys that stand for each other still do so when the same is
inserted for such keys. -/
theorem insertMany_agree {N : κ → α → Prop} (hN : Relator.BiUnique N) {l : List (κ × β)} {l' : List (α × β)}
    (hall : List.Forall₂ (fun x y => N x.1 y.1 ∧ x.2 = y.2) l l') {m : Std.HashMap κ β} {m' : Std.HashMap α β}
    (h : ∀ {k x}, N k x → m[k]? = m'[x]?) {k : κ} {x : α} (hk : N k x) : (m.insertMany l)[k]? = (m'.insertMany l')[x]? := by
  induction hall generalizing m m' with
  | nil => exact h hk
  | @cons e e' l l' he _ ih =>
    rw [Std.HashMap.insertMany_cons, Std.HashMap.insertMany_cons]
    refine ih fun {k x} hk => ?_
    rw [Std.HashMap.getElem?_insert, Std.HashMap.getElem?_insert, he.2]
    by_cases hkey : e.1 = k
    · have hx : e'.1 = x := hN.2 (hkey ▸ he.1) hk
      rw [if_pos (by simpa using hkey), if_pos (by simpa using hx)]
    · have hx : e'.1 ≠ x := fun hx => hkey (hN.1 he.1 (hx ▸ hk))
      rw [if_neg (by simpa using hkey), if_neg (by simpa using hx), h hk]

end tables

/-! ## Classes -/

/-- The position of a class is found by the handle of its type as by the type. -/
theorem positions_eq (hp : p.WellFormed) {ks : List InternedClass} {cs : List ClassDef}
    (hall : List.Forall₂ (InternedClass.Codes p) ks cs) {h : Handle TypeKey} {d : String} (hd : h.Names p.types d) :
    (positions ks)[h]? = (ClassOrder.positions cs)[d]? := by
  have hempty : ∀ {h : Handle TypeKey} {d : String}, h.Names p.types d →
      (∅ : Std.HashMap (Handle TypeKey) Nat)[h]? = (∅ : Std.HashMap String Nat)[d]? := fun _ => by simp
  refine insertMany_agree (biUnique_names hp.types) ?_ hempty hd
  rw [List.forall₂_map_left_iff, List.forall₂_map_right_iff]
  suffices h : ∀ n, List.Forall₂ (fun (x : InternedClass × Nat) (y : ClassDef × Nat) =>
      x.1.type.Names p.types y.1.type ∧ x.2 = y.2) (ks.zipIdx n) (cs.zipIdx n) from h 0
  induction hall with
  | nil => exact fun _ => .nil
  | cons hk _ ih => exact fun n => .cons ⟨hk.type, rfl⟩ (ih (n + 1))

/-- The handles of the supertypes of a class stand for them. -/
theorem InternedClass.Codes.supertypes (h : Arenas.Codes p a p) (hp : p.WellFormed) (hsealed : a.typeLists.isSealed = true)
    {k : InternedClass} {c : ClassDef} (hk : k.Codes p c) : TypesCode p (k.supertypes a) c.supertypes := by
  refine List.rel_append (forall₂_toList hk.superclass) ?_
  have hinterfaces := hk.interfaces
  cases hki : k.interfaces with
  | none =>
    rw [hki] at hinterfaces
    rw [not_not.mp hinterfaces]
    exact .nil
  | some list =>
    rw [hki] at hinterfaces
    obtain ⟨code, hcode, hts⟩ := h.typeLists.exists_key hp.typeLists hsealed hinterfaces.2
    rw [Option.map_some, hcode]
    exact hts.2

theorem filterMap_congr_forall₂ {κ α β : Type} {N : κ → α → Prop} {f : κ → Option β} {g : α → Option β} {ks : List κ}
    {xs : List α} (hall : List.Forall₂ N ks xs) (h : ∀ {k x}, N k x → f k = g x) : ks.filterMap f = xs.filterMap g := by
  induction hall with
  | nil => rfl
  | cons hk _ ih => rw [List.filterMap_cons, List.filterMap_cons, h hk, ih]

section definitions

variable (h : Arenas.Codes p a p) (hr : p.Ranked) {ks : List InternedClass}
  (hcodes : ∀ k ∈ ks, k.Codes p k.definition)

include h hr hcodes

/-- Classes are in the order of the indices of their types if they are in that of the types. -/
theorem sorted_definition (hb : p.Bounded) :
    (ks.mergeSort fun k l => a.types.index k.type ≤ a.types.index l.type).map InternedClass.definition =
      ClassDef.sortedBy (fun c => SortKey.ofString c.type) (ks.map InternedClass.definition) := by
  have hp := hr.wellFormed
  rw [ClassDef.sortedBy_eq_mergeSort]
  refine List.map_mergeSort fun k hk l hl => ?_
  have hk := (hcodes k hk).type
  have hl := (hcodes l hl).type
  rw [h.types.index_eq hk, h.types.index_eq hl, ← hr.types.compare_indexOrNone hb.types SortKey.ofString
    (hk.mem hp.types) (hl.mem hp.types), Bool.eq_iff_iff, decide_eq_true_iff, Std.isLE_compare]

/-- The supertypes of classes stand where those of their definitions do. -/
theorem parents_definition :
    (ks.map fun k => (k.supertypes a).filterMap fun t => (positions ks)[t]?).toArray =
      ClassOrder.parentsOf (ks.map InternedClass.definition) := by
  have hall : List.Forall₂ (InternedClass.Codes p) ks (ks.map InternedClass.definition) :=
    List.forall₂_map_right_iff.mpr (List.forall₂_same.mpr hcodes)
  have hsealed : a.typeLists.isSealed = true := h.typeLists.isSealed_eq.trans hr.typeLists.isFinalized
  rw [ClassOrder.parentsOf, List.map_map]
  refine congrArg List.toArray (List.map_congr_left fun k hk => ?_)
  exact filterMap_congr_forall₂ ((hcodes k hk).supertypes h hr.wellFormed hsealed) (positions_eq hr.wellFormed hall)

end definitions

/-- Interned classes are arranged as the classes are that they stand for. -/
theorem arrange_definition (h : Arenas.Codes p a p) (hr : p.Ranked) (hb : p.Bounded) {ks : List InternedClass}
    {cs : List ClassDef} (hall : List.Forall₂ (InternedClass.Codes p) ks cs) :
    (arrange a ks).map InternedClass.definition = ClassOrder.arrange cs := by
  have hcodes : ∀ k ∈ ks, k.Codes p k.definition := fun k hk => by
    obtain ⟨c, -, hc⟩ := exists_mem_right hall hk
    exact hc.definition ▸ hc
  obtain rfl : ks.map InternedClass.definition = cs := by
    clear hcodes
    induction hall with
    | nil => rfl
    | cons hk _ ih => rw [List.map_cons, hk.definition, ih]
  rw [arrange, ClassOrder.arrange, ← sorted_definition h hr hcodes hb]
  have hcodes : ∀ k ∈ ks.mergeSort fun k l => a.types.index k.type ≤ a.types.index l.type, k.Codes p k.definition :=
    fun k hk => hcodes k (List.mem_mergeSort.mp hk)
  generalize ks.mergeSort (fun k l => a.types.index k.type ≤ a.types.index l.type) = sorted at hcodes
  simp only [parents_definition h hr hcodes, List.length_map, List.map_filterMap]
  refine List.filterMap_congr fun i _ => ?_
  simp

end Dalvik.Builder
