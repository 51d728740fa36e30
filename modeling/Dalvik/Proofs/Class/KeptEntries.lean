import Dalvik.Proofs.Class.Stable

/-!
# What a class that is given back refers to

A class that a file gives back refers to what it referred to when it was written, but
for strings: the names of parameters of methods without a body are lost
(`ClassDef.InnerArranged.thins_ofClass`).
-/

namespace Dalvik

namespace Entry

/-! ## Losing strings -/

/-- The second list of entries has lost no more than strings of the first one. -/
structure Thins (entries entries' : List Entry) : Prop where
  subset : entries' ⊆ entries
  keeps : ∀ e ∈ entries, e ∈ entries' ∨ ∃ s, e = .string s

namespace Thins

theorem rfl {entries : List Entry} : Thins entries entries :=
  ⟨List.Subset.refl _, fun _ he => .inl he⟩

theorem of_mem_iff {entries entries' : List Entry} (h : ∀ e, e ∈ entries' ↔ e ∈ entries) : Thins entries entries' :=
  ⟨fun e he => (h e).mp he, fun e he => .inl ((h e).mpr he)⟩

theorem append {l l' m m' : List Entry} (h : Thins l l') (h' : Thins m m') : Thins (l ++ m) (l' ++ m') where
  subset := List.append_subset.mpr ⟨List.Subset.trans h.subset (List.subset_append_left l m),
    List.Subset.trans h'.subset (List.subset_append_right l m)⟩
  keeps e he := by
    rcases List.mem_append.mp he with he | he
    · exact (h.keeps e he).imp_left fun he => List.mem_append_left _ he
    · exact (h'.keeps e he).imp_left fun he => List.mem_append_right _ he

theorem flatMap {α : Type} {f f' : α → List Entry} {l : List α} (h : ∀ a ∈ l, Thins (f a) (f' a)) :
    Thins (l.flatMap f) (l.flatMap f') where
  subset e he := by
    obtain ⟨a, ha, he⟩ := List.mem_flatMap.mp he
    exact List.mem_flatMap.mpr ⟨a, ha, (h a ha).subset he⟩
  keeps e he := by
    obtain ⟨a, ha, he⟩ := List.mem_flatMap.mp he
    exact ((h a ha).keeps e he).imp_left fun he => List.mem_flatMap.mpr ⟨a, ha, he⟩

end Thins

/-! ## Annotations and bodies -/

theorem ofAnnotationItem_arranged (a : AnnotationItem) : ofAnnotationItem a.arranged = ofAnnotationItem a := by
  unfold ofAnnotationItem
  rw [a.arranged_arranged]

section annotations

variable {annotations : List AnnotationItem} (h : ∀ a ∈ annotations, a.InnerArranged)

include h

theorem setOf_kept : AnnotationItem.setOf (AnnotationItem.kept annotations) = AnnotationItem.setOf annotations := by
  refine eq_of_pairwise_lt id compare (AnnotationItem.setOf_pairwise _) (AnnotationItem.setOf_pairwise _) fun a => ?_
  rw [AnnotationItem.mem_setOf, (AnnotationItem.canonical_kept h).map_arranged, AnnotationItem.mem_kept h,
    AnnotationItem.mem_setOf]

theorem isEmpty_kept : (AnnotationItem.kept annotations).isEmpty = annotations.isEmpty := by
  rw [Bool.eq_iff_iff, List.isEmpty_iff, List.isEmpty_iff, List.eq_nil_iff_forall_not_mem]
  constructor
  · intro hnone
    by_contra hne
    obtain ⟨a, ha⟩ := List.exists_mem_of_ne_nil annotations hne
    exact hnone a.arranged ((AnnotationItem.mem_kept h).mpr (List.mem_map_of_mem ha))
  · rintro rfl a ha
    cases (AnnotationItem.mem_kept h).mp ha

theorem mem_ofAnnotationSet_kept (e : Entry) :
    e ∈ ofAnnotationSet (AnnotationItem.kept annotations) ↔ e ∈ ofAnnotationSet annotations := by
  have hitems : e ∈ (AnnotationItem.kept annotations).flatMap ofAnnotationItem ↔
      e ∈ annotations.flatMap ofAnnotationItem := by
    simp only [List.mem_flatMap, AnnotationItem.mem_kept h, List.mem_map, exists_exists_and_eq_and,
      ofAnnotationItem_arranged]
  unfold ofAnnotationSet
  rw [isEmpty_kept h, setOf_kept h]
  split
  · exact Iff.rfl
  · rw [List.mem_append, List.mem_append, hitems]

end annotations

theorem mem_ofCode_kept (c : Code) (e : Entry) : e ∈ ofCode c.kept ↔ e ∈ ofCode c := by
  have hreferences : (c.kept.instructions.flatMap fun i => i.references.flatMap ofReference) =
      c.instructions.flatMap fun i => i.references.flatMap ofReference := by
    rw [Code.kept, List.flatMap_map]
    refine List.flatMap_congr fun i _ => ?_
    rw [i.references_extended]
  have hhandlers : e ∈ (c.kept.tries.flatMap fun t => t.handlers.flatMap fun h => ofType? h.type) ↔
      e ∈ c.tries.flatMap fun t => t.handlers.flatMap fun h => ofType? h.type := by
    rw [Code.kept, List.flatMap_map]
    simp only [List.mem_flatMap, TryBlock.inOrder, (Handler.inOrder_perm _).mem_iff]
  simp only [ofCode, List.mem_append, hreferences, hhandlers]
  exact Iff.rfl

/-! ## Classes -/

/-- A method that is given back may have lost the names of its parameters. -/
theorem thins_ofMethodDef {m : MethodDef} (hannotations : ∀ a ∈ m.annotations, a.InnerArranged)
    (hparameters : ∀ p ∈ m.parameters, ∀ a ∈ p.annotations, a.InnerArranged) (hidden : Option HiddenApi) :
    Thins (ofMethodDef m) (ofMethodDef (m.kept hidden)) := by
  have hsets : Thins (m.parameters.flatMap fun p => ofAnnotationSet p.annotations)
      ((m.kept hidden).parameters.flatMap fun p => ofAnnotationSet p.annotations) := by
    rw [MethodDef.kept, List.flatMap_map]
    exact .flatMap fun p hp => .of_mem_iff (mem_ofAnnotationSet_kept (hparameters p hp))
  have hnames : Thins (m.parameters.flatMap fun p => ofString? p.name)
      ((m.kept hidden).parameters.flatMap fun p => ofString? p.name) := by
    rw [MethodDef.kept, List.flatMap_map]
    refine .flatMap fun p _ => ?_
    rw [Parameter.kept]
    cases m.code with
    | some code => exact .rfl
    | none =>
      refine ⟨List.nil_subset _, fun e he => .inr ?_⟩
      obtain ⟨s, -, rfl⟩ := List.mem_map.mp he
      exact ⟨s, rfl⟩
  have hcode : Thins (m.code.toList.flatMap ofCode) ((m.kept hidden).code.toList.flatMap ofCode) := by
    rw [MethodDef.kept]
    cases m.code with
    | none => exact .rfl
    | some code => exact .append (.of_mem_iff (mem_ofCode_kept code)) .rfl
  unfold ofMethodDef
  rw [m.sig_kept]
  exact (((hsets.append hnames).append hcode).append .rfl).append (.of_mem_iff (mem_ofAnnotationSet_kept hannotations))

end Entry

namespace ClassDef.InnerArranged

open Entry

variable {c : ClassDef} (h : c.InnerArranged)

include h

theorem thins_fields : Thins (c.fields.flatMap ofFieldDef) (c.kept.fields.flatMap ofFieldDef) := by
  have hfields := c.map_fields_kept (k := ofFieldDef)
    (g := fun f => ofField f.sig ++ ofAnnotationSet (AnnotationItem.kept f.annotations)) fun _ _ => rfl
  rw [List.flatMap_def (l := c.kept.fields), hfields, ← List.flatMap_def]
  exact .flatMap fun f hf => .append .rfl (.of_mem_iff (mem_ofAnnotationSet_kept (h.fieldAnnotations f hf)))

/-- A class that is given back refers to what it was written with, but for some
strings. -/
theorem thins_ofClass : Thins (ofClass c) (ofClass c.kept) := by
  have hannotations : Thins (ofAnnotationSet c.annotations) (ofAnnotationSet c.kept.annotations) :=
    .of_mem_iff (mem_ofAnnotationSet_kept h.annotations)
  have hmethods : Thins (c.methods.flatMap ofMethodDef) (c.kept.methods.flatMap ofMethodDef) := by
    rw [methods_kept, List.flatMap_map]
    exact .flatMap fun m hm => thins_ofMethodDef (h.methodAnnotations m hm) (h.parameterAnnotations m hm) _
  unfold ofClass
  rw [h.staticValues_kept]
  exact (((Thins.rfl.append hannotations).append .rfl).append h.thins_fields).append hmethods

end ClassDef.InnerArranged

end Dalvik
