import Mathlib.Data.List.Sort

/-!
# Sorted lists

A list that is sorted by a total order ascends (`mergeSort_pairwise_isLE`), and
without repetitions it ascends strictly (`eraseReps_pairwise`). What ascends
strictly is given by its members (`eq_of_pairwise_lt`).
-/

namespace Dalvik

/-! ## Orders by a key -/

theorem transCmp_on {α β : Type} (key : α → β) (cmp : β → β → Ordering) [Std.TransCmp cmp] :
    Std.TransCmp fun a b => cmp (key a) (key b) where
  eq_swap := Std.OrientedCmp.eq_swap
  isLE_trans := Std.TransCmp.isLE_trans

/-- A key that tells all values apart orders them as it is ordered itself. -/
theorem lawfulEqCmp_on {α β : Type} {key : α → β} (h : Function.Injective key) (cmp : β → β → Ordering)
    [Std.LawfulEqCmp cmp] : Std.LawfulEqCmp fun a b => cmp (key a) (key b) where
  compare_self := Std.ReflCmp.compare_self
  eq_of_compare heq := h (Std.LawfulEqCmp.eq_of_compare heq)

/-! ## Sorting -/

/-- What is sorted by a key ascends by that key. -/
theorem mergeSort_pairwise_isLE_on {α β : Type} (key : α → β) (cmp : β → β → Ordering) [Std.TransCmp cmp]
    (l : List α) : (l.mergeSort fun a b => (cmp (key a) (key b)).isLE).Pairwise
      fun a b => (cmp (key a) (key b)).isLE = true := by
  refine List.pairwise_mergeSort (fun _ _ _ => Std.TransCmp.isLE_trans) (fun a b => ?_) l
  rw [@Std.OrientedCmp.eq_swap _ cmp]
  cases cmp (key b) (key a) <;> rfl

theorem mergeSort_pairwise_isLE {α : Type} (cmp : α → α → Ordering) [Std.TransCmp cmp] (l : List α) :
    (l.mergeSort fun a b => (cmp a b).isLE).Pairwise fun a b => (cmp a b).isLE = true :=
  mergeSort_pairwise_isLE_on id cmp l

/-- The comparison from left to right is the order of lists. -/
theorem compareLex_eq_lt {α : Type} [Ord α] [LT α] [Std.LawfulEqOrd α]
    (hlt : ∀ {a b : α}, compare a b = .lt ↔ a < b) {l l' : List α} :
    List.compareLex compare l l' = .lt ↔ l < l' := by
  induction l generalizing l' with
  | nil => cases l' <;> simp [List.compareLex_nil_nil, List.compareLex_nil_cons]
  | cons a l ih =>
    cases l' with
    | nil => simp [List.compareLex_cons_nil]
    | cons b l' =>
      rw [List.compareLex_cons_cons, Ordering.then_eq_lt, hlt, Std.compare_eq_iff_eq, ih, List.cons_lt_cons_iff]

/-- What comes strictly before something is something else. -/
theorem ne_of_compare_eq_lt {α : Type} {cmp : α → α → Ordering} [Std.ReflCmp cmp] {a b : α} (h : cmp a b = .lt) :
    a ≠ b := by
  rintro rfl
  rw [@Std.ReflCmp.compare_self _ cmp] at h
  cases h

/-- Lists that ascend strictly by a key and have the same members are equal. -/
theorem eq_of_pairwise_lt {α σ : Type} (key : α → σ) (cmp : σ → σ → Ordering) [Std.TransCmp cmp] {l l' : List α}
    (h : l.Pairwise fun a b => cmp (key a) (key b) = .lt) (h' : l'.Pairwise fun a b => cmp (key a) (key b) = .lt)
    (hmem : ∀ a, a ∈ l ↔ a ∈ l') : l = l' := by
  have hirrefl : ∀ a, cmp (key a) (key a) ≠ .lt := fun a => by simp [@Std.ReflCmp.compare_self _ cmp]
  have hnodup {l : List α} (h : l.Pairwise fun a b => cmp (key a) (key b) = .lt) : l.Nodup :=
    h.imp fun hab => by
      rintro rfl
      exact hirrefl _ hab
  refine ((List.perm_ext_iff_of_nodup (hnodup h) (hnodup h')).mpr hmem).eq_of_pairwise (fun a b _ _ hab hba => ?_) h h'
  exact absurd (Std.TransCmp.lt_trans hab hba) (hirrefl a)

/-! ## Repetitions -/

section eraseReps

variable {α : Type}

theorem eraseRepsBy_loop (r : α → α → Bool) (a : α) (l acc : List α) :
    List.eraseRepsBy.loop r a l acc = acc.reverse ++ List.eraseRepsBy.loop r a l [] := by
  induction l generalizing a acc with
  | nil => simp [List.eraseRepsBy.loop]
  | cons b l ih =>
    simp only [List.eraseRepsBy.loop]
    split
    · exact ih a acc
    · rw [ih b (a :: acc), ih b [a]]
      simp

variable [BEq α]

theorem eraseReps_cons_cons (a b : α) (l : List α) :
    (a :: b :: l).eraseReps = if a == b then (a :: l).eraseReps else a :: (b :: l).eraseReps := by
  simp only [List.eraseReps, List.eraseRepsBy]
  rw [List.eraseRepsBy.loop]
  split
  · rename_i h
    rw [if_pos h]
  · rename_i h
    rw [if_neg (by simp [h]), eraseRepsBy_loop]
    rfl

variable [LawfulBEq α]

theorem mem_eraseReps_cons {l : List α} {a c : α} : c ∈ (a :: l).eraseReps ↔ c ∈ a :: l := by
  induction l generalizing a with
  | nil => rfl
  | cons b l ih =>
    rw [eraseReps_cons_cons]
    split
    · rename_i h
      rw [ih, eq_of_beq h]
      simp
    · rw [List.mem_cons, ih, List.mem_cons (l := b :: l)]

@[simp] theorem mem_eraseReps {l : List α} {c : α} : c ∈ l.eraseReps ↔ c ∈ l := by
  cases l with
  | nil => rfl
  | cons a l => exact mem_eraseReps_cons

variable {cmp : α → α → Ordering} [Std.TransCmp cmp] [Std.LawfulEqCmp cmp]

theorem eraseReps_cons_pairwise {l : List α} {a : α} (h : (a :: l).Pairwise fun a b => (cmp a b).isLE = true) :
    (a :: l).eraseReps.Pairwise fun a b => cmp a b = .lt := by
  induction l generalizing a with
  | nil => exact List.pairwise_singleton ..
  | cons b l ih =>
    obtain ⟨ha, hb⟩ := List.pairwise_cons.mp h
    rw [eraseReps_cons_cons]
    split
    · exact ih (List.pairwise_cons.mpr ⟨fun c hc => ha c (List.mem_cons_of_mem _ hc), hb.of_cons⟩)
    · rename_i hne
      have hab : cmp a b = .lt := by
        have := ha b List.mem_cons_self
        cases hc : cmp a b with
        | lt => rfl
        | eq => exact absurd (Std.LawfulEqCmp.eq_of_compare hc) (by simpa using hne)
        | gt => rw [hc] at this; cases this
      refine List.pairwise_cons.mpr ⟨fun c hc => ?_, ih hb⟩
      rw [mem_eraseReps_cons, List.mem_cons] at hc
      rcases hc with rfl | hc
      · exact hab
      · exact Std.TransCmp.lt_of_lt_of_isLE hab ((List.pairwise_cons.mp hb).1 c hc)

/-- Without repetitions an ascending list ascends strictly. -/
theorem eraseReps_pairwise {l : List α} (h : l.Pairwise fun a b => (cmp a b).isLE = true) :
    l.eraseReps.Pairwise fun a b => cmp a b = .lt := by
  cases l with
  | nil => exact .nil
  | cons a l => exact eraseReps_cons_pairwise h

end eraseReps

end Dalvik
