import Dalvik.AnnotationItem
import Dalvik.Proofs.Order.Sorting

/-!
# The orders of values and of annotations

`Value.compare` tells all values apart (`compare_eq_iff`). Here it is turned
around (`compareContent_swap`) and chained (`compareContent_trans`), by
induction on the first value together with its lists. So values, lists of
values and annotations are totally ordered.

`AnnotationItem.setOf` lists the different annotations of a list, each with its
elements in the order of their names: it has the same members as the list
(`mem_setOf`), and they ascend strictly (`setOf_pairwise`).
-/

namespace Dalvik

namespace Comparison

/-- A second comparison only counts where the first finds no difference. -/
theorem then_eq_lt_iff {a b : Ordering} : a.then b = .lt ↔ a = .lt ∨ a = .eq ∧ b = .lt := by
  cases a <;> simp [Ordering.then]

/-- Two comparisons one after the other can be chained if each of them can. -/
theorem then_lt_trans {ab bc ac ab' bc' ac' : Ordering} (hlt : ab = .lt → bc = .lt → ac = .lt)
    (hl : ab = .eq → ac = bc) (hr : bc = .eq → ac = ab)
    (h : ab = .eq → bc = .eq → ab' = .lt → bc' = .lt → ac' = .lt) (h1 : ab.then ab' = .lt)
    (h2 : bc.then bc' = .lt) : ac.then ac' = .lt := by
  rw [then_eq_lt_iff] at h1 h2 ⊢
  rcases h1 with h1 | ⟨h1, h1'⟩ <;> rcases h2 with h2 | ⟨h2, h2'⟩
  · exact .inl (hlt h1 h2)
  · exact .inl ((hr h2).trans h1)
  · exact .inl ((hl h1).trans h2)
  · exact .inr ⟨(hl h1).trans h2, h h1 h2 h1' h2'⟩

/-- `then_lt_trans` for a lawful first comparison. -/
theorem then_lt_trans_of_ord {α : Type} [Ord α] [Std.TransOrd α] [Std.LawfulEqOrd α] {x y z : α}
    {ab' bc' ac' : Ordering} (h : x = y → y = z → ab' = .lt → bc' = .lt → ac' = .lt)
    (h1 : (Ord.compare x y).then ab' = .lt) (h2 : (Ord.compare y z).then bc' = .lt) :
    (Ord.compare x z).then ac' = .lt := by
  refine then_lt_trans Std.TransCmp.lt_trans (fun he => ?_) (fun he => ?_) (fun he he' => ?_) h1 h2
  · rw [Std.LawfulEqOrd.eq_of_compare he]
  · rw [Std.LawfulEqOrd.eq_of_compare he]
  · exact h (Std.LawfulEqOrd.eq_of_compare he) (Std.LawfulEqOrd.eq_of_compare he')

end Comparison

namespace Value

mutual

theorem compareContent_swap (a b : Value) : compareContent a b = (compareContent b a).swap := by
  cases a <;> cases b <;> first | rfl | skip
  all_goals simp only [compareContent]
  case array.array vs ws => exact compareValues_swap vs ws
  case nested.nested t vs u ws => rw [Ordering.swap_then, ← Std.OrientedOrd.eq_swap, ← compareElements_swap vs ws]
  all_goals exact Std.OrientedOrd.eq_swap

theorem compareValues_swap (a b : List Value) : compareValues a b = (compareValues b a).swap := by
  match a, b with
  | [], [] | [], _ :: _ | _ :: _, [] => rfl
  | v :: vs, w :: ws =>
    simp only [compareValues, Ordering.swap_then, ← Std.OrientedOrd.eq_swap, ← compareContent_swap v w,
      ← compareValues_swap vs ws]

theorem compareElements_swap (a b : List (String × Value)) : compareElements a b = (compareElements b a).swap := by
  match a, b with
  | [], [] | [], _ :: _ | _ :: _, [] => rfl
  | (n, v) :: vs, (m, w) :: ws =>
    simp only [compareElements, Ordering.swap_then, ← Std.OrientedOrd.eq_swap, ← compareContent_swap v w,
      ← compareElements_swap vs ws]

end

mutual

theorem compareContent_trans {a b c : Value} (h1 : compareContent a b = .lt) (h2 : compareContent b c = .lt) :
    compareContent a c = .lt := by
  cases a <;> cases b <;> simp only [compareContent, reduceCtorEq] at h1
  all_goals cases c <;> simp only [compareContent, reduceCtorEq] at h2 ⊢
  case array.array.array vs ws xs => exact compareValues_trans h1 h2
  case nested.nested.nested t vs u ws r xs =>
    exact Comparison.then_lt_trans_of_ord (fun _ _ => compareElements_trans) h1 h2
  all_goals exact Std.TransCmp.lt_trans h1 h2

theorem compareValues_trans {a b c : List Value} (h1 : compareValues a b = .lt) (h2 : compareValues b c = .lt) :
    compareValues a c = .lt := by
  match a, b, c with
  | [], _ :: _, _ :: _ => rfl
  | [], [], _ | _ :: _, [], _ => simp [compareValues] at h1
  | _, _ :: _, [] => simp [compareValues] at h2
  | v :: vs, w :: ws, x :: xs =>
    simp only [compareValues, Ordering.then_assoc] at h1 h2 ⊢
    refine Comparison.then_lt_trans_of_ord (fun hvw hwx => ?_) h1 h2
    exact Comparison.then_lt_trans compareContent_trans
      (fun he => by rw [eq_of_compareContent v w (UInt8.toNat_inj.1 hvw) he])
      (fun he => by rw [eq_of_compareContent w x (UInt8.toNat_inj.1 hwx) he])
      fun _ _ => compareValues_trans

theorem compareElements_trans {a b c : List (String × Value)} (h1 : compareElements a b = .lt)
    (h2 : compareElements b c = .lt) : compareElements a c = .lt := by
  match a, b, c with
  | [], _ :: _, _ :: _ => rfl
  | [], [], _ | _ :: _, [], _ => simp [compareElements] at h1
  | _, _ :: _, [] => simp [compareElements] at h2
  | (n, v) :: vs, (m, w) :: ws, (k, x) :: xs =>
    simp only [compareElements, Ordering.then_assoc] at h1 h2 ⊢
    refine Comparison.then_lt_trans_of_ord (fun _ _ => ?_) h1 h2
    refine Comparison.then_lt_trans_of_ord fun hvw hwx => ?_
    exact Comparison.then_lt_trans compareContent_trans
      (fun he => by rw [eq_of_compareContent v w (UInt8.toNat_inj.1 hvw) he])
      (fun he => by rw [eq_of_compareContent w x (UInt8.toNat_inj.1 hwx) he])
      fun _ _ => compareElements_trans

end

end Value

/-! ## Total orders -/

namespace Comparison

/-- A comparison that can be turned around, can be chained and finds no
difference only between equals is a total order. -/
theorem isLE_trans {α : Type} {cmp : α → α → Ordering} (heq : ∀ {a b}, cmp a b = .eq → a = b)
    (htrans : ∀ {a b c}, cmp a b = .lt → cmp b c = .lt → cmp a c = .lt) {a b c : α}
    (h1 : (cmp a b).isLE = true) (h2 : (cmp b c).isLE = true) : (cmp a c).isLE = true := by
  cases hab : cmp a b with
  | eq => rw [heq hab]; exact h2
  | gt => rw [hab] at h1; cases h1
  | lt =>
    cases hbc : cmp b c with
    | eq => rw [← heq hbc]; exact h1
    | gt => rw [hbc] at h2; cases h2
    | lt => rw [htrans hab hbc]; rfl

end Comparison

namespace Value

theorem compare_swap (a b : Value) : Value.compare a b = (Value.compare b a).swap := by
  rw [Value.compare, Value.compare, Ordering.swap_then, ← Std.OrientedOrd.eq_swap, ← compareContent_swap a b]

theorem compare_trans {a b c : Value} (h1 : Value.compare a b = .lt) (h2 : Value.compare b c = .lt) :
    Value.compare a c = .lt :=
  Comparison.then_lt_trans_of_ord (fun _ _ => compareContent_trans) h1 h2

instance : Std.TransOrd Value where
  eq_swap := compare_swap _ _
  isLE_trans := Comparison.isLE_trans compare_eq_iff.1 compare_trans

/-- The test for equality, which goes by the comparison. -/
theorem beq_eq_isEq (a b : Value) : (a == b) = (Value.compare a b).isEq := by
  rw [Bool.eq_iff_iff, beq_iff_eq, Ordering.isEq_iff_eq_eq, compare_eq_iff]

/-- Values of different kinds are told apart by their tags alone. -/
theorem compare_of_tag_ne {a b : Value} (h : a.tag ≠ b.tag) :
    Value.compare a b = Ord.compare a.tag.toNat b.tag.toNat ∧ Value.compare a b ≠ .eq := by
  have hne : Ord.compare a.tag.toNat b.tag.toNat ≠ .eq := fun he =>
    h (UInt8.toNat_inj.1 (Std.compare_eq_iff_eq.1 he))
  have heq : Value.compare a b = Ord.compare a.tag.toNat b.tag.toNat := by
    rw [Value.compare]
    cases hc : Ord.compare a.tag.toNat b.tag.toNat with
    | eq => exact absurd hc hne
    | lt | gt => rfl
  exact ⟨heq, heq ▸ hne⟩

/-- The comparison of values is a lawful total order: nothing differs from
itself, it can be turned around and chained, and it tells apart whatever is
not the same value, with floating-point numbers going by their bits. The test
for equality agrees with it, and values of different kinds never compare as
equal. -/
theorem compare_lawful (a b c : Value) :
    Value.compare a a = .eq ∧ Value.compare b a = (Value.compare a b).swap ∧
      ((Value.compare a b).isLE → (Value.compare b c).isLE → (Value.compare a c).isLE) ∧
      (Value.compare a b = .lt → Value.compare b c = .lt → Value.compare a c = .lt) ∧
      (Value.compare a b = .eq ↔ a = b) ∧ (a == b) = (Value.compare a b).isEq ∧
      (a.tag ≠ b.tag → Value.compare a b ≠ .eq) :=
  ⟨compare_eq_iff.2 rfl, compare_swap b a, Comparison.isLE_trans compare_eq_iff.1 compare_trans, compare_trans,
    compare_eq_iff, beq_eq_isEq a b, fun h => (compare_of_tag_ne h).2⟩

/-- Negative zero comes right before zero. -/
example : Value.compare (.float 0x80000000) (.float 0) = .lt ∧ (Value.float 0x80000000 == .float 0) = false := by
  decide

end Value

instance : Std.TransCmp Value.compareValues where
  eq_swap := Value.compareValues_swap _ _
  isLE_trans := Comparison.isLE_trans (Value.eq_of_compareValues _ _) Value.compareValues_trans

instance : Std.LawfulEqCmp Value.compareValues where
  compare_self := Value.compareValues_self _
  eq_of_compare := Value.eq_of_compareValues _ _

namespace AnnotationItem

theorem compare_swap (a b : AnnotationItem) : AnnotationItem.compare a b = (AnnotationItem.compare b a).swap := by
  simp only [AnnotationItem.compare, Ordering.swap_then, ← Std.OrientedOrd.eq_swap, ← Value.compareElements_swap]

theorem code_injective {a b : Visibility} (h : a.code = b.code) : a = b := by
  cases a <;> cases b <;> first | rfl | exact absurd h (by decide)

/-- Only equal annotations compare as equal. -/
theorem eq_of_compare {a b : AnnotationItem} (h : AnnotationItem.compare a b = .eq) : a = b := by
  rw [AnnotationItem.compare, Ordering.then_eq_eq, Ordering.then_eq_eq, Std.compare_eq_iff_eq,
    Std.compare_eq_iff_eq] at h
  obtain ⟨v, t, es⟩ := a
  obtain ⟨w, u, fs⟩ := b
  obtain ⟨hv, rfl, he⟩ := h
  obtain rfl := code_injective hv
  obtain rfl := Value.eq_of_compareElements _ _ he
  rfl

theorem compare_trans {a b c : AnnotationItem} (h1 : AnnotationItem.compare a b = .lt)
    (h2 : AnnotationItem.compare b c = .lt) : AnnotationItem.compare a c = .lt := by
  refine Comparison.then_lt_trans_of_ord (fun _ _ => ?_) h1 h2
  exact Comparison.then_lt_trans_of_ord fun _ _ => Value.compareElements_trans

instance : Std.TransOrd AnnotationItem where
  eq_swap := compare_swap _ _
  isLE_trans := Comparison.isLE_trans eq_of_compare compare_trans

instance : Std.LawfulEqOrd AnnotationItem where
  compare_self {a} := by
    show AnnotationItem.compare a a = .eq
    simp [AnnotationItem.compare, Value.compareElements_self]
  eq_of_compare := eq_of_compare

/-! ### Sets -/

/-- A set holds the arranged annotations of a list. -/
theorem mem_setOf {annotations : List AnnotationItem} {a : AnnotationItem} :
    a ∈ setOf annotations ↔ a ∈ annotations.map arranged := by
  rw [setOf, mem_eraseReps, List.mem_mergeSort]

theorem setOf_pairwise (annotations : List AnnotationItem) :
    (setOf annotations).Pairwise fun a b => Ord.compare a b = .lt :=
  eraseReps_pairwise (mergeSort_pairwise_isLE ..)

end AnnotationItem

end Dalvik
