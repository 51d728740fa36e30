import Mathlib.Data.Finset.Card
import Mathlib.Data.Finset.Range
import Mathlib.Data.List.Perm.Basic
import Dalvik.Assembly.ClassOrder
import Dalvik.Proofs.Assembly.InsertionOrder
import Dalvik.Proofs.Assembly.Sections

/-!
# The classes of a file are those that were added

A walk leaves each node that it enters once (`Walk.Grows`), so that the order in which
it leaves them is a permutation of all nodes. The bound on its depth cuts nothing off
(`exists_walks`). `arrange_perm`: arranging classes neither adds nor loses any.
-/

namespace Dalvik.ClassOrder

/-- A walk has gone on from one point to another: it has entered new nodes below a
bound, each once, and left each of them. -/
def Walk.Grows (bound : Nat) (walk next : Walk) : Prop :=
  ∃ added : List Nat, next.left.toList = walk.left.toList ++ added ∧ added.Nodup ∧
    (∀ i, i ∈ next.entered ↔ i ∈ walk.entered ∨ i ∈ added) ∧ ∀ i ∈ added, i ∉ walk.entered ∧ i < bound

namespace Walk.Grows

variable {bound : Nat} {walk next last : Walk}

theorem refl (bound : Nat) (walk : Walk) : Grows bound walk walk :=
  ⟨[], (List.append_nil _).symm, .nil, by simp, by simp⟩

theorem trans (h : Grows bound walk next) (h' : Grows bound next last) : Grows bound walk last := by
  obtain ⟨added, hleft, hnodup, hentered, hnew⟩ := h
  obtain ⟨added', hleft', hnodup', hentered', hnew'⟩ := h'
  refine ⟨added ++ added', by rw [hleft', hleft, List.append_assoc], ?_, fun i => ?_, fun i hi => ?_⟩
  · refine List.nodup_append.mpr ⟨hnodup, hnodup', fun i hi j hj heq => ?_⟩
    exact (hnew' j hj).1 ((hentered j).mpr (.inr (heq ▸ hi)))
  · rw [hentered', hentered, List.mem_append, or_assoc]
  · rcases List.mem_append.mp hi with hi | hi
    · exact hnew i hi
    · exact ⟨fun hmem => (hnew' i hi).1 ((hentered i).mpr (.inl hmem)), (hnew' i hi).2⟩

theorem mem_entered (h : Grows bound walk next) {i : Nat} (hi : i ∈ walk.entered) : i ∈ next.entered := by
  obtain ⟨added, -, -, hentered, -⟩ := h
  exact (hentered i).mpr (.inl hi)

/-- A new node is left once the nodes that are entered from it have been left. -/
theorem around {node : Nat} (hnew : node ∉ walk.entered) (hlt : node < bound)
    (h : Grows bound { walk with entered := walk.entered.insert node } next) :
    Grows bound walk { next with left := next.left.push node } := by
  obtain ⟨added, hleft, hnodup, hentered, hadded⟩ := h
  simp only [Std.HashSet.mem_insert, beq_iff_eq] at hentered hadded
  refine ⟨added ++ [node], ?_, ?_, fun i => ?_, fun i hi => ?_⟩
  · rw [Array.toList_push, hleft, List.append_assoc]
  · refine List.nodup_append.mpr ⟨hnodup, List.nodup_singleton node, fun i hi j hj heq => ?_⟩
    rw [List.mem_singleton.mp hj] at heq
    exact (hadded i hi).1 (.inl heq.symm)
  · rw [hentered, List.mem_append, List.mem_singleton]
    grind
  · rcases List.mem_append.mp hi with hi | hi
    · exact ⟨fun hmem => (hadded i hi).1 (.inr hmem), (hadded i hi).2⟩
    · rw [List.mem_singleton.mp hi]
      exact ⟨hnew, hlt⟩

end Walk.Grows

/-! ## Walks without a bound -/

/-- A walk through nodes one after the other, as deep as it goes: it passes by the
nodes that have been entered, and it enters a new one, walks through its parents and
leaves it. -/
inductive Walks (parents : Nat → List Nat) : Walk → List Nat → Walk → Prop
  | done {walk : Walk} : Walks parents walk [] walk
  | passed {walk last : Walk} {node : Nat} {nodes : List Nat} (hnode : node ∈ walk.entered)
      (hrest : Walks parents walk nodes last) : Walks parents walk (node :: nodes) last
  | through {walk inner last : Walk} {node : Nat} {nodes : List Nat} (hnode : node ∉ walk.entered)
      (hinner : Walks parents { walk with entered := walk.entered.insert node } (parents node) inner)
      (hrest : Walks parents { inner with left := inner.left.push node } nodes last) :
      Walks parents walk (node :: nodes) last

variable {parents : Nat → List Nat} {bound : Nat} (hparents : ∀ i, ∀ j ∈ parents i, j < bound)

namespace Walks

variable {walk last : Walk} {nodes : List Nat}

include hparents in
theorem grows (h : Walks parents walk nodes last) (hlt : ∀ node ∈ nodes, node < bound) : walk.Grows bound last := by
  induction h with
  | done => exact .refl bound _
  | passed _ _ ih => exact ih fun node hnode => hlt node (List.mem_cons_of_mem _ hnode)
  | @through _ _ _ node _ hnew _ _ ih ih' =>
    refine .trans (.around hnew (hlt node List.mem_cons_self) (ih (hparents node))) (ih' ?_)
    exact fun node hnode => hlt node (List.mem_cons_of_mem _ hnode)

include hparents in
/-- All nodes that are walked through have been entered then. -/
theorem mem_entered (h : Walks parents walk nodes last) (hlt : ∀ node ∈ nodes, node < bound) :
    ∀ node ∈ nodes, node ∈ last.entered := by
  induction h with
  | done => exact fun _ hnode => nomatch hnode
  | passed hnode hrest ih =>
    have hlt := (List.forall_mem_cons.mp hlt).2
    exact List.forall_mem_cons.mpr ⟨(hrest.grows hparents hlt).mem_entered hnode, ih hlt⟩
  | @through _ _ _ node _ _ hinner hrest _ ih =>
    have hlt := (List.forall_mem_cons.mp hlt).2
    have hnode := (hinner.grows hparents (hparents node)).mem_entered Std.HashSet.mem_insert_self
    exact List.forall_mem_cons.mpr ⟨(hrest.grows hparents hlt).mem_entered hnode, ih hlt⟩

/-- Walks that follow each other. -/
theorem append {middle : Walk} {nodes' : List Nat} (h : Walks parents walk nodes middle)
    (h' : Walks parents middle nodes' last) : Walks parents walk (nodes ++ nodes') last := by
  induction h with
  | done => exact h'
  | passed hnode _ ih => exact .passed hnode (ih h')
  | through hnode hinner _ _ ih => exact .through hnode hinner (ih h')

end Walks

/-! ### The bound on the depth -/

/-- The nodes that have not been entered. -/
def Walk.unentered (bound : Nat) (walk : Walk) : Finset Nat :=
  (Finset.range bound).filter (· ∉ walk.entered)

namespace Walk.Grows

variable {walk next : Walk}

theorem card_unentered_le (h : Grows bound walk next) : (next.unentered bound).card ≤ (walk.unentered bound).card := by
  refine Finset.card_le_card fun i hi => ?_
  rw [Walk.unentered, Finset.mem_filter] at hi ⊢
  exact ⟨hi.1, fun hmem => hi.2 (h.mem_entered hmem)⟩

end Walk.Grows

theorem Walk.card_unentered_insert {walk : Walk} {node : Nat} (hnew : node ∉ walk.entered) (hlt : node < bound) :
    (Walk.unentered bound { walk with entered := walk.entered.insert node }).card < (walk.unentered bound).card := by
  refine Finset.card_lt_card (Finset.ssubset_iff_of_subset ?_ |>.mpr ⟨node, ?_, ?_⟩)
  · intro i hi
    rw [unentered, Finset.mem_filter] at hi ⊢
    exact ⟨hi.1, fun hmem => hi.2 (Std.HashSet.mem_insert.mpr (.inr hmem))⟩
  · exact Finset.mem_filter.mpr ⟨Finset.mem_range.mpr hlt, hnew⟩
  · exact fun hmem => (Finset.mem_filter.mp hmem).2 Std.HashSet.mem_insert_self

include hparents in
theorem walks_foldl {step : Walk → Nat → Walk} {fuel : Nat}
    (hstep : ∀ walk : Walk, (walk.unentered bound).card ≤ fuel → ∀ node < bound, Walks parents walk [node] (step walk node))
    {nodes : List Nat} (hlt : ∀ node ∈ nodes, node < bound) (walk : Walk) (hfuel : (walk.unentered bound).card ≤ fuel) :
    Walks parents walk nodes (nodes.foldl step walk) := by
  induction nodes generalizing walk with
  | nil => exact .done
  | cons node nodes ih =>
    obtain ⟨hnode, hlt⟩ := List.forall_mem_cons.mp hlt
    have hfirst := hstep walk hfuel node hnode
    have hgrows := hfirst.grows hparents (List.forall_mem_singleton.mpr hnode)
    exact hfirst.append (ih hlt _ (Nat.le_trans hgrows.card_unentered_le hfuel))

include hparents in
/-- Fuel for all nodes that have not been entered cuts nothing off. -/
theorem walks_visit (fuel : Nat) (walk : Walk) (hfuel : (walk.unentered bound).card ≤ fuel) {node : Nat}
    (hlt : node < bound) : Walks parents walk [node] (visit parents fuel walk node) := by
  induction fuel generalizing walk node with
  | zero =>
    refine .passed (not_imp_comm.mp (fun hnew => ?_) (Nat.not_lt.mpr hfuel)) .done
    exact Finset.card_pos.mpr ⟨node, Finset.mem_filter.mpr ⟨Finset.mem_range.mpr hlt, hnew⟩⟩
  | succ fuel ih =>
    rw [visit]
    split
    · exact .passed (Std.HashSet.contains_iff_mem.mp ‹_›) .done
    · rename_i hnew
      rw [Std.HashSet.contains_iff_mem] at hnew
      have hless := Walk.card_unentered_insert hnew hlt
      refine .through hnew (walks_foldl hparents (fun walk hfuel node hlt => ih walk hfuel hlt) (hparents node) _ ?_) .done
      omega

include hparents in
/-- The order of a walk from given starts is that of a walk without a bound. -/
theorem exists_walks : ∃ last, Walks parents {} (List.range bound) last ∧
    walkOrder parents (List.range bound) = last.left.toList := by
  refine ⟨_, walks_foldl hparents (fun walk hfuel node hlt => walks_visit hparents _ walk hfuel hlt)
    (fun node => List.mem_range.mp) {} ?_, rfl⟩
  rw [List.length_range]
  exact Nat.le_trans (Finset.card_filter_le _ _) (Finset.card_range bound).le

include hparents in
/-- A walk from all nodes leaves each of them once. -/
theorem walkOrder_perm : (walkOrder parents (List.range bound)).Perm (List.range bound) := by
  have hlt : ∀ node ∈ List.range bound, node < bound := fun node => List.mem_range.mp
  obtain ⟨last, hwalks, horder⟩ := exists_walks hparents
  obtain ⟨added, hleft, hnodup, hentered, hnew⟩ := hwalks.grows hparents hlt
  have hadded : last.left.toList = added := hleft
  rw [horder, hadded]
  refine (List.perm_ext_iff_of_nodup hnodup List.nodup_range).mpr fun i => ⟨fun hi => ?_, fun hi => ?_⟩
  · exact List.mem_range.mpr (hnew i hi).2
  · have hmem := hwalks.mem_entered hparents hlt i hi
    rw [hentered] at hmem
    exact hmem.resolve_left Std.HashSet.not_mem_empty

/-! ## Classes -/

/-- The class at the place of a type has that type. -/
theorem exists_of_getElem?_positions {classes : List ClassDef} {type : String} {i : Nat}
    (h : (positions classes)[type]? = some i) : ∃ c, classes[i]? = some c ∧ c.type = type := by
  rw [positions, Std.HashMap.ofList_eq_insertMany_empty] at h
  rcases mem_of_getElem?_insertMany h with h | hmem
  · rw [Std.HashMap.getElem?_empty] at h
    cases h
  · obtain ⟨⟨c, i⟩, hci, ⟨⟩⟩ := List.mem_map.mp hmem
    exact ⟨c, List.mem_zipIdx_iff_getElem?.mp hci, rfl⟩

/-- The classes in the order of their types. -/
def byType (classes : List ClassDef) : List ClassDef :=
  ClassDef.sortedBy (fun c => SortKey.ofString c.type) classes

theorem byType_perm (classes : List ClassDef) : (byType classes).Perm classes :=
  ClassDef.sortedBy_perm _ classes

/-- The places of the supertypes of the class at a place. -/
def superPlaces (classes : List ClassDef) (place : Nat) : List Nat :=
  (parentsOf classes)[place]?.getD []

theorem superPlaces_eq {classes : List ClassDef} {place : Nat} {c : ClassDef} (hc : classes[place]? = some c) :
    superPlaces classes place = c.supertypes.filterMap fun type => (positions classes)[type]? := by
  rw [superPlaces, parentsOf, List.getElem?_toArray, List.getElem?_map, hc]
  rfl

theorem lt_of_mem_superPlaces (classes : List ClassDef) (place : Nat) :
    ∀ parent ∈ superPlaces classes place, parent < classes.length := by
  intro parent hparent
  cases hc : classes[place]? with
  | none =>
    rw [superPlaces, parentsOf, List.getElem?_toArray, List.getElem?_map, hc] at hparent
    cases hparent
  | some c =>
    rw [superPlaces_eq hc] at hparent
    obtain ⟨type, -, hposition⟩ := List.mem_filterMap.mp hparent
    obtain ⟨s, hs, -⟩ := exists_of_getElem?_positions hposition
    exact (List.getElem?_eq_some_iff.mp hs).1

/-- Classes are arranged by a walk through their places. -/
theorem arrange_eq (classes : List ClassDef) : arrange classes =
    (walkOrder (superPlaces (byType classes)) (List.range (byType classes).length)).filterMap
      fun place => (byType classes)[place]? := by
  simp only [← List.getElem?_toArray]
  rfl

/-- Arranging classes neither adds nor loses any. -/
theorem arrange_perm (classes : List ClassDef) : (arrange classes).Perm classes := by
  have hwalk := (walkOrder_perm (lt_of_mem_superPlaces (byType classes))).filterMap
    fun place => (byType classes)[place]?
  rw [Ranking.filterMap_range] at hwalk
  rw [arrange_eq]
  exact hwalk.trans (byType_perm classes)

end Dalvik.ClassOrder
