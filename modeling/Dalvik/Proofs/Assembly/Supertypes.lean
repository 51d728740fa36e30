import Mathlib.Logic.Relation
import Dalvik.Proofs.Assembly.ClassOrder

/-!
# Supertypes come first

A node that has been entered and not left yet leads to every node that is walked through
before it is left. So a parent that has not been left when its node is left leads back to
the node (`Walks.placed`). `arrange_supertypes_first`: in a file every class stands behind
each of its supertypes, but for those that lead back to it.
-/

namespace Dalvik.ClassOrder

open Relation (TransGen)

/-! ## Nodes behind their parents -/

section nodes

variable {parents : Nat → List Nat} {bound : Nat}

/-- In an order of nodes each node stands behind those of its parents that do not lead
back to it. -/
def Placed (parents : Nat → List Nat) (order : List Nat) : Prop :=
  ∀ front node back, order = front ++ node :: back →
    ∀ parent ∈ parents node, parent ∈ front ∨ TransGen (fun i j => j ∈ parents i) parent node

theorem Placed.concat {order : List Nat} (h : Placed parents order) {node : Nat}
    (hnode : ∀ parent ∈ parents node, parent ∈ order ∨ TransGen (fun i j => j ∈ parents i) parent node) :
    Placed parents (order ++ [node]) := by
  intro front node' back heq
  rcases List.eq_nil_or_concat' back with rfl | ⟨back, last, rfl⟩
  · obtain ⟨rfl, hsingle⟩ := List.append_inj' heq rfl
    rw [← List.singleton_inj.mp hsingle]
    exact hnode
  · rw [← List.cons_append, ← List.append_assoc] at heq
    exact h front node' back (List.append_inj' heq rfl).1

/-- The node has been entered and not left. -/
def Walk.Open (walk : Walk) (node : Nat) : Prop :=
  node ∈ walk.entered ∧ node ∉ walk.left.toList

/-- What has been entered since has been left. -/
theorem Walk.Grows.open_of_open {walk next : Walk} (h : Walk.Grows bound walk next) {node : Nat} (hopen : next.Open node) :
    walk.Open node := by
  obtain ⟨added, hleft, -, hentered, -⟩ := h
  obtain ⟨hmem, hnot⟩ := hopen
  rw [hleft, List.mem_append, not_or] at hnot
  exact ⟨((hentered node).mp hmem).resolve_right hnot.2, hnot.1⟩

variable (hparents : ∀ i, ∀ j ∈ parents i, j < bound)

include hparents

/-- A walk through nodes to which all open nodes lead keeps every node behind its
parents. -/
theorem Walks.placed {walk last : Walk} {nodes : List Nat} (h : Walks parents walk nodes last)
    (hlt : ∀ node ∈ nodes, node < bound) (hplaced : Placed parents walk.left.toList)
    (hopen : ∀ i, walk.Open i → ∀ node ∈ nodes, TransGen (fun i j => j ∈ parents i) i node) :
    Placed parents last.left.toList := by
  induction h with
  | done => exact hplaced
  | passed _ _ ih =>
    exact ih (List.forall_mem_cons.mp hlt).2 hplaced fun i hi => (List.forall_mem_cons.mp (hopen i hi)).2
  | @through walk inner _ node _ hnew hinner _ ih ih' =>
    obtain ⟨hnode, hlt⟩ := List.forall_mem_cons.mp hlt
    have hgrows := hinner.grows hparents (hparents node)
    -- what is open on the way down is the node itself or was open before, and so leads to the node
    have hdown : ∀ i, Walk.Open { walk with entered := walk.entered.insert node } i →
        i = node ∨ TransGen (fun i j => j ∈ parents i) i node := by
      rintro i ⟨hentered, hleft⟩
      rcases Std.HashSet.mem_insert.mp hentered with heq | hentered
      · exact .inl (beq_iff_eq.mp heq).symm
      · exact .inr (hopen i ⟨hentered, hleft⟩ node List.mem_cons_self)
    have hplacedInner : Placed parents inner.left.toList := by
      refine ih (hparents node) hplaced fun i hi parent hparent => ?_
      rcases hdown i hi with rfl | hleads
      · exact .single hparent
      · exact hleads.tail hparent
    have haround : Walk.Grows bound _ _ := .around hnew hnode hgrows
    refine ih' hlt ?_ fun i hi => (List.forall_mem_cons.mp (hopen i (haround.open_of_open hi))).2
    rw [Array.toList_push]
    refine hplacedInner.concat fun parent hparent => or_iff_not_imp_left.mpr fun hleft => ?_
    have hentered := hinner.mem_entered hparents (hparents node) parent hparent
    rcases hdown parent (hgrows.open_of_open ⟨hentered, hleft⟩) with rfl | hleads
    · exact .single hparent
    · exact hleads

end nodes

/-! ## Classes behind their supertypes -/

/-- Of these classes the first one names the second one as a supertype. -/
def Extends (classes : List ClassDef) (c s : ClassDef) : Prop :=
  c ∈ classes ∧ s ∈ classes ∧ s.type ∈ c.supertypes

/-- A class is found by its type. -/
theorem getElem?_positions {classes : List ClassDef} (hnodup : (classes.map (·.type)).Nodup) {place : Nat} {c : ClassDef}
    (hc : classes[place]? = some c) : (positions classes)[c.type]? = some place := by
  have hdistinct : (classes.zipIdx.map fun p => (p.1.type, p.2)).Pairwise fun a b => (a.1 == b.1) = false := by
    rw [List.pairwise_map]
    rw [List.Nodup, List.pairwise_map, ← List.zipIdx_map_fst 0 classes, List.pairwise_map] at hnodup
    exact hnodup.imp fun hne => beq_eq_false_iff_ne.mpr hne
  refine Std.HashMap.getElem?_ofList_of_mem (beq_self_eq_true _) hdistinct (List.mem_map.mpr ⟨(c, place), ?_, rfl⟩)
  rwa [List.mem_zipIdx_iff_getElem?]

theorem mem_superPlaces_iff {classes : List ClassDef} (hnodup : (classes.map (·.type)).Nodup) {place parent : Nat}
    {c s : ClassDef} (hc : classes[place]? = some c) (hs : classes[parent]? = some s) :
    parent ∈ superPlaces classes place ↔ s.type ∈ c.supertypes := by
  rw [superPlaces_eq hc, List.mem_filterMap]
  constructor
  · rintro ⟨type, htype, hposition⟩
    obtain ⟨s', hs', rfl⟩ := exists_of_getElem?_positions hposition
    rwa [Option.some.inj (hs.symm.trans hs')]
  · exact fun hmem => ⟨s.type, hmem, getElem?_positions hnodup hs⟩

/-- Where places lead to each other, the classes there do. -/
theorem transGen_extends {classes : List ClassDef} (hnodup : (classes.map (·.type)).Nodup) {place place' : Nat}
    (h : TransGen (fun i j => j ∈ superPlaces classes i) place place') {s : ClassDef} (hs : classes[place]? = some s) :
    ∃ c, classes[place']? = some c ∧ TransGen (Extends classes) s c := by
  have hstep : ∀ {i j : Nat} {c : ClassDef}, classes[i]? = some c → j ∈ superPlaces classes i →
      ∃ d, classes[j]? = some d ∧ Extends classes c d := by
    intro i j c hc hj
    have hd := List.getElem?_eq_getElem (lt_of_mem_superPlaces _ i j hj)
    exact ⟨_, hd, List.mem_of_getElem? hc, List.mem_of_getElem? hd, (mem_superPlaces_iff hnodup hc hd).mp hj⟩
  induction h with
  | single hj =>
    obtain ⟨c, hc, hextends⟩ := hstep hs hj
    exact ⟨c, hc, .single hextends⟩
  | tail _ hj ih =>
    obtain ⟨c, hc, hleads⟩ := ih
    obtain ⟨d, hd, hextends⟩ := hstep hc hj
    exact ⟨d, hd, hleads.tail hextends⟩

/-- The first class stands in front of the second one. -/
def Precedes (order : List ClassDef) (s c : ClassDef) : Prop :=
  ∃ front back, order = front ++ c :: back ∧ s ∈ front

/-- A class stands behind its supertype, unless that leads back to it. -/
theorem precedes_or_transGen {classes : List ClassDef} (hnodup : (classes.map (·.type)).Nodup) {c s : ClassDef}
    (h : Extends classes c s) : Precedes (arrange classes) s c ∨ TransGen (Extends classes) s c := by
  have hperm := byType_perm classes
  have hextends : Extends (byType classes) = Extends classes := by
    funext c s
    simp only [Extends, hperm.mem_iff]
  have hnodup : ((byType classes).map (·.type)).Nodup := (hperm.map _).nodup_iff.mpr hnodup
  obtain ⟨hc, hs, htype⟩ := h
  obtain ⟨i, hi⟩ := List.mem_iff_getElem?.mp (hperm.mem_iff.mpr hc)
  obtain ⟨j, hj⟩ := List.mem_iff_getElem?.mp (hperm.mem_iff.mpr hs)
  have hbound := lt_of_mem_superPlaces (byType classes)
  obtain ⟨last, hwalks, horder⟩ := exists_walks hbound
  have hplaced : Placed (superPlaces (byType classes)) last.left.toList := by
    refine hwalks.placed hbound (fun node => List.mem_range.mp) (fun front node back heq => ?_) fun i hi => ?_
    · exact absurd heq (by simp)
    · exact absurd hi.1 Std.HashSet.not_mem_empty
  have hmem : i ∈ last.left.toList := by
    rw [← horder, (walkOrder_perm hbound).mem_iff, List.mem_range]
    exact (List.getElem?_eq_some_iff.mp hi).1
  obtain ⟨front, back, hsplit⟩ := List.append_of_mem hmem
  rcases hplaced front i back hsplit j ((mem_superPlaces_iff hnodup hi hj).mpr htype) with hfront | hleads
  · refine .inl ⟨front.filterMap fun place => (byType classes)[place]?,
      back.filterMap fun place => (byType classes)[place]?, ?_, List.mem_filterMap.mpr ⟨j, hfront, hj⟩⟩
    rw [arrange_eq, horder, hsplit, List.filterMap_append, List.filterMap_cons_some hi]
  · obtain ⟨c', hc', hleads⟩ := transGen_extends hnodup hleads hj
    rw [hextends, Option.some.inj (hc'.symm.trans hi)] at hleads
    exact .inr hleads

/-- Classes of different types are arranged as a walk without a bound leaves them. None
is added or lost, and each stands behind each of its supertypes that does not lead back
to it. If no class leads back to itself, all supertypes come first. -/
theorem arrange_supertypes_first {classes : List ClassDef} (hnodup : (classes.map (·.type)).Nodup) :
    (arrange classes).Perm classes ∧
      (∃ last, Walks (superPlaces (byType classes)) {} (List.range classes.length) last ∧
        arrange classes = last.left.toList.filterMap fun place => (byType classes)[place]?) ∧
      (∀ c s, Extends classes c s → Precedes (arrange classes) s c ∨ TransGen (Extends classes) s c) ∧
      ((∀ c, ¬ TransGen (Extends classes) c c) → ∀ c s, Extends classes c s → Precedes (arrange classes) s c) := by
  have hfirst : ∀ c s, Extends classes c s → Precedes (arrange classes) s c ∨ TransGen (Extends classes) s c :=
    fun c s h => precedes_or_transGen hnodup h
  obtain ⟨last, hwalks, horder⟩ := exists_walks (lt_of_mem_superPlaces (byType classes))
  rw [(byType_perm classes).length_eq] at hwalks
  refine ⟨arrange_perm classes, ⟨last, hwalks, by rw [arrange_eq, horder]⟩, hfirst, fun hacyclic c s h => ?_⟩
  exact (hfirst c s h).resolve_right fun hleads => hacyclic c (.head h hleads)

/-- Two interfaces that extend each other, one of them also itself, and a class that
implements both. -/
theorem arrange_supertypes_first_cycle :
    let one := ClassDef.make "LOne;" ⟨0x600⟩ none ["LTwo;"] none [] [] []
    let two := ClassDef.make "LTwo;" ⟨0x600⟩ none ["LOne;", "LTwo;"] none [] [] []
    let both := ClassDef.make "LBoth;" ⟨1⟩ (some "Ljava/lang/Object;") ["LTwo;", "LOne;"] none [] [] []
    ([both, one, two].map (·.type)).Nodup ∧ (arrange [both, one, two]).Perm [both, one, two] ∧
      Precedes (arrange [both, one, two]) one both ∧ Precedes (arrange [both, one, two]) two both := by
  intro one two both
  have hnodup : ([both, one, two].map (·.type)).Nodup := by decide
  obtain ⟨hperm, -, hfirst, -⟩ := arrange_supertypes_first hnodup
  have hlast : ∀ s, ¬ TransGen (Extends [both, one, two]) s both := by
    intro s hleads
    obtain ⟨c, -, hc, -, htype⟩ := Relation.TransGen.tail'_iff.mp hleads
    have hnone : ∀ c ∈ [both, one, two], both.type ∉ c.supertypes := by decide
    exact hnone c hc htype
  refine ⟨hnodup, hperm, (hfirst both one ?_).resolve_right (hlast one), (hfirst both two ?_).resolve_right (hlast two)⟩
  · exact ⟨by simp, by simp, by decide⟩
  · exact ⟨by simp, by simp, by decide⟩

end Dalvik.ClassOrder
