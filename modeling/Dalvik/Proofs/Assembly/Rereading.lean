import Dalvik.Proofs.Assembly.Legibility
import Dalvik.Proofs.Class.KeptEntries

/-!
# What is read of a written file

Whatever file is written, what is read of it is in the form in which files are given
back: its members, annotations and handlers are in order, its classes come in the order
of the file, and its markers are the strings of the file that hold markers
(`Blueprint.Orderly.canonical_content`).
-/

namespace Dalvik

open Assembly

/-! ## Classes in order -/

theorem ClassDef.sortedBy_map {α β : Type} {key : α → SortKey} {k : β → SortKey} {f : α → β}
    (h : ∀ m, k (f m) = key m) (members : List α) : sortedBy k (members.map f) = (sortedBy key members).map f := by
  rw [sortedBy_eq_mergeSort, sortedBy_eq_mergeSort]
  exact (List.map_mergeSort fun a _ b _ => by rw [h, h]).symm

namespace ClassOrder

/-- Classes that keep their types and supertypes keep their order. -/
theorem arrange_map {f : ClassDef → ClassDef} (htype : ∀ c, (f c).type = c.type)
    (hsupertypes : ∀ c, (f c).supertypes = c.supertypes) (classes : List ClassDef) :
    arrange (classes.map f) = (arrange classes).map f := by
  have hpositions (l : List ClassDef) : positions (l.map f) = positions l := by
    rw [positions, List.zipIdx_map, List.map_map, positions]
    exact congrArg _ (List.map_congr_left fun p _ => Prod.ext (htype p.1) rfl)
  have hparents (l : List ClassDef) : parentsOf (l.map f) = parentsOf l := by
    simp only [parentsOf, hpositions, List.map_map, Function.comp_def, hsupertypes]
  have hsorted : ClassDef.sortedBy (fun c => SortKey.ofString c.type) (classes.map f) =
      (ClassDef.sortedBy (fun c => SortKey.ofString c.type) classes).map f := by
    apply ClassDef.sortedBy_map
    intro c
    rw [htype]
  unfold arrange
  rw [hsorted]
  simp only [hparents, List.length_map, List.getElem?_toArray, List.getElem?_map, List.map_filterMap]

/-- Classes that are in the order of a file stay in it. -/
theorem arrange_arrange {classes : List ClassDef} (h : (classes.map (·.type)).Nodup) :
    arrange (arrange classes) = arrange classes :=
  (arrange_eq_of_perm (arrange_perm classes).symm h).symm

end ClassOrder

/-! ## Copies of classes -/

namespace ClassDef

variable {c : ClassDef}

theorem fields_arranged (c : ClassDef) : c.arranged.fields = c.fields.map FieldDef.arranged :=
  List.map_append.symm

theorem methods_arranged (c : ClassDef) : c.arranged.methods = c.methods.map MethodDef.arranged :=
  List.map_append.symm

theorem Distinct.arranged (h : c.Distinct) : c.arranged.Distinct where
  definingClass_of_field := by
    rw [fields_arranged]
    exact List.forall_mem_map.mpr fun f hf => h.definingClass_of_field f hf
  definingClass_of_method := by
    rw [methods_arranged]
    exact List.forall_mem_map.mpr fun m hm => h.definingClass_of_method m hm
  fields := by
    rw [fields_arranged, List.map_map]
    exact h.fields
  methods := by
    rw [methods_arranged, List.map_map]
    exact h.methods

theorem Sound.arranged (h : c.Sound) : c.arranged.Sound := by
  rw [Sound, methods_arranged]
  exact List.forall_mem_map.mpr fun m hm => h m hm

theorem sorted_ordered (c : ClassDef) : c.ordered.Sorted where
  staticFields := sortedBy_pairwise ..
  instanceFields := sortedBy_pairwise ..
  directMethods := sortedBy_pairwise ..
  virtualMethods := sortedBy_pairwise ..

namespace InnerArranged

theorem arranged (h : c.InnerArranged) : c.arranged.InnerArranged where
  annotations := List.forall_mem_map.mpr fun a ha => (h.annotations a ha).arranged
  fieldAnnotations := by
    rw [fields_arranged]
    exact List.forall_mem_map.mpr fun f hf => List.forall_mem_map.mpr fun a ha => (h.fieldAnnotations f hf a ha).arranged
  methodAnnotations := by
    rw [methods_arranged]
    exact List.forall_mem_map.mpr fun m hm => List.forall_mem_map.mpr fun a ha => (h.methodAnnotations m hm a ha).arranged
  parameterAnnotations := by
    rw [methods_arranged]
    exact List.forall_mem_map.mpr fun m hm => h.parameterAnnotations m hm
  values := List.forall_mem_map.mpr fun f hf => h.values f hf
  references := by
    rw [ReferencesArranged, methods_arranged]
    exact List.forall_mem_map.mpr fun m hm => h.references m hm

theorem ordered (h : c.InnerArranged) : c.ordered.InnerArranged where
  annotations := h.annotations
  fieldAnnotations f hf := h.fieldAnnotations f (c.perm_fields_ordered.mem_iff.mp hf)
  methodAnnotations m hm := h.methodAnnotations m (c.perm_methods_ordered.mem_iff.mp hm)
  parameterAnnotations m hm := h.parameterAnnotations m (c.perm_methods_ordered.mem_iff.mp hm)
  values f hf := h.values f ((sortedBy_perm ..).mem_iff.mp hf)
  references m hm := h.references m (c.perm_methods_ordered.mem_iff.mp hm)

end InnerArranged

end ClassDef

/-! ## Files that are told apart from others only by their order -/

/-- A file whose members are told apart, whose bodies are sound and the annotations inside
of whose constants are in order. Its classes, members, handlers and annotations may come
in any order. -/
structure DexFile.Orderly (d : DexFile) : Prop where
  types : (d.classes.map (·.type)).Nodup
  distinct : ∀ c ∈ d.classes, c.Distinct
  sound : ∀ c ∈ d.classes, c.Sound
  innerArranged : ∀ c ∈ d.classes, c.InnerArranged

namespace Blueprint

/-- A settled blueprint of such a file. -/
structure Orderly (b : Blueprint) : Prop extends Settled b where
  sorted : ∀ c ∈ b.classes, c.Sorted
  sound : ∀ c ∈ b.classes, c.Sound
  innerArranged : ∀ c ∈ b.classes, c.InnerArranged
  /-- Besides what its classes are made of it has only strings. -/
  made : ∀ e, b.pools.Has e → (∃ c ∈ b.classes, e ∈ Entry.ofClass c) ∨ ∃ s, e = .string s
  arranged : ClassOrder.arrange b.classes = b.classes

/-- What is read of the file that a blueprint is written as. -/
def content (b : Blueprint) (opcodes : Opcodes) : DexFile :=
  ⟨opcodes, b.classes.map ClassDef.kept, b.pools.strings.sortedKeys.filterMap Marker.parse?⟩

namespace Orderly

variable {b : Blueprint} (h : b.Orderly) (opcodes : Opcodes)

include h

theorem types_content : ((b.content opcodes).classes.map (·.type)).Nodup := by
  rw [content, List.map_map]
  exact h.types

theorem arrange_content : ClassOrder.arrange (b.content opcodes).classes = (b.content opcodes).classes := by
  show ClassOrder.arrange (b.classes.map ClassDef.kept) = b.classes.map ClassDef.kept
  rw [ClassOrder.arrange_map (f := ClassDef.kept) (fun _ => rfl) (fun _ => rfl), h.arranged]

/-- What is read of a file is in the form of a file. -/
theorem canonical_content (hreadable : ∀ c ∈ b.classes, c.Readable) : (b.content opcodes).Canonical where
  types := h.types_content opcodes
  distinct := List.forall_mem_map.mpr fun c hc => (h.distinct c hc).kept
  sorted := List.forall_mem_map.mpr fun c hc => (h.sorted c hc).kept
  classes := List.forall_mem_map.mpr fun c hc => (h.innerArranged c hc).canonical_kept (hreadable c hc).restrictions
  markers := by
    refine List.pairwise_filterMap.mpr (h.ranked.strings.ascending.imp fun {s t} hlt m hm n hn => ?_)
    rw [← (Marker.parse?_eq_some_iff.mp hm).1, ← (Marker.parse?_eq_some_iff.mp hn).1, ← SortKey.compare_ofString]
    exact hlt
  markerObjects m hm := by
    obtain ⟨s, -, hs⟩ := List.mem_filterMap.mp hm
    exact (Marker.parse?_eq_some_iff.mp hs).2
  strings s hs m hm := by
    obtain ⟨c', hc', hs⟩ := List.mem_flatMap.mp hs
    obtain ⟨c, hc, rfl⟩ := List.mem_map.mp hc'
    have hhas : b.pools.Has (.string s) := h.has c hc _ ((h.innerArranged c hc).thins_ofClass.subset hs)
    exact List.mem_filterMap.mpr ⟨s, h.ranked.strings.mem_sortedKeys.mpr hhas, hm⟩

omit h in
theorem readable_content (hreadable : ∀ c ∈ b.classes, c.Readable) : (b.content opcodes).Readable :=
  List.forall_mem_map.mpr fun c hc => (hreadable c hc).kept

end Orderly

end Blueprint

/-- An orderly file is written from an orderly blueprint. -/
theorem DexFile.Orderly.orderly_blueprint {d : DexFile} (h : d.Orderly) :
    (gather d.opcodes d.requests).finalized.blueprint.Orderly := by
  have hgathered := gathered_gather d.opcodes d.requests
  have hclasses : (gather d.opcodes d.requests).classes.toList = d.classes.map fun c => c.arranged.ordered := by
    rw [classes_gather d.opcodes (d.addedTypes_requests ▸ h.types), d.filterMap_class?]
  have hperm : (gather d.opcodes d.requests).finalized.blueprint.classes.Perm
      (d.classes.map fun c => c.arranged.ordered) := hclasses ▸ ClassOrder.arrange_perm _
  have hall {P : ClassDef → Prop} (hadded : ∀ c ∈ d.classes, P c.arranged.ordered) :
      ∀ c ∈ (gather d.opcodes d.requests).finalized.blueprint.classes, P c := fun c hc => by
    obtain ⟨original, horiginal, rfl⟩ := List.mem_map.mp (hperm.mem_iff.mp hc)
    exact hadded original horiginal
  exact {
    toComplete := hgathered.complete
    types := (hperm.map _).nodup_iff.mpr (by rw [List.map_map]; exact h.types)
    distinct := hall fun c hc => (h.distinct c hc).arranged.ordered
    sorted := hall fun c _ => c.arranged.sorted_ordered
    sound := hall fun c hc => (h.sound c hc).arranged.ordered
    innerArranged := hall fun c hc => (h.innerArranged c hc).arranged.ordered
    made := fun e he => by
      obtain ⟨r, hr, he⟩ := List.mem_flatMap.mp
        ((has_gather d.opcodes (d.addedTypes_requests ▸ h.types) e).mp ((Pools.has_finalized e).mp he))
      rcases List.mem_append.mp hr with hr | hr
      · obtain ⟨c, hc, rfl⟩ := List.mem_map.mp hr
        rw [Request.entries, Request.class?_view] at he
        refine .inl ⟨c.arranged.ordered, hperm.mem_iff.mpr (List.mem_map_of_mem hc), ?_⟩
        simpa using he
      · obtain ⟨m, -, rfl⟩ := List.mem_map.mp hr
        exact .inr ⟨m.text, List.mem_singleton.mp he⟩
    arranged := ClassOrder.arrange_arrange hgathered.distinct }

end Dalvik
