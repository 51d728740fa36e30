import Dalvik.Assembly.Data
import Dalvik.Proofs.Assembly.Pools
import Mathlib.Tactic.Tauto

/-!
# Files that hold what their classes are made of

A blueprint is complete (`Blueprint.Complete`) when its pools hold what its classes
are made of, typed (`Blueprint.Typed`) when besides its classes are told apart, and
settled (`Blueprint.Settled`) when their members are too. Then no two methods of the
file have one signature (`Blueprint.Settled.nodup_methods`).
-/

namespace Dalvik

/-- The members of a class name it as theirs, and no two of them have one
signature. -/
structure ClassDef.Distinct (c : ClassDef) : Prop where
  definingClass_of_field : ∀ f ∈ c.fields, f.definingClass = c.type
  definingClass_of_method : ∀ m ∈ c.methods, m.definingClass = c.type
  fields : (c.fields.map FieldDef.sig).Nodup
  methods : (c.methods.map MethodDef.sig).Nodup

/-- The members of a class are in the order in which a file lists them. -/
structure ClassDef.Sorted (c : ClassDef) : Prop where
  staticFields : c.staticFields.Pairwise fun f g => (SortKey.compare f.sortKey g.sortKey).isLE = true
  instanceFields : c.instanceFields.Pairwise fun f g => (SortKey.compare f.sortKey g.sortKey).isLE = true
  directMethods : c.directMethods.Pairwise fun m n => (SortKey.compare m.sortKey n.sortKey).isLE = true
  virtualMethods : c.virtualMethods.Pairwise fun m n => (SortKey.compare m.sortKey n.sortKey).isLE = true

namespace Blueprint

/-- The pools of a blueprint are finalized and hold what its classes are made of. -/
structure Complete (b : Blueprint) : Prop where
  ranked : b.pools.Ranked
  closed : b.pools.Closed
  has : ∀ c ∈ b.classes, ∀ e ∈ Entry.ofClass c, b.pools.Has e

/-- The classes of a complete blueprint are told apart by their types. -/
structure Typed (b : Blueprint) : Prop extends Complete b where
  types : (b.classes.map (·.type)).Nodup

/-- The classes of a complete blueprint are told apart by their types and have
distinct members. -/
structure Settled (b : Blueprint) : Prop extends Typed b where
  distinct : ∀ c ∈ b.classes, c.Distinct

variable {b : Blueprint}

/-- A method is the only one of the file with its signature, if it is the only one of its class. -/
theorem Typed.eq_of_sig (hb : b.Typed) (hown : ∀ c ∈ b.classes, ∀ m ∈ c.methods, m.definingClass = c.type)
    {c : ClassDef} (hc : c ∈ b.classes) (hnodup : (c.methods.map MethodDef.sig).Nodup) {m : MethodDef}
    (hm : m ∈ c.methods) {cm : ClassDef × MethodDef} (hcm : cm ∈ b.methods) (hsig : cm.2.sig = m.sig) : cm = (c, m) := by
  obtain ⟨c', hc', hmethod⟩ := List.mem_flatMap.mp hcm
  obtain ⟨m', hm', rfl⟩ := List.mem_map.mp hmethod
  have htype : c'.type = c.type := by
    rw [← hown c' hc' m' hm', ← hown c hc m hm]
    exact congrArg MethodSig.definingClass hsig
  obtain rfl : c' = c := List.inj_on_of_nodup_map hb.types hc' hc htype
  exact congrArg _ (List.inj_on_of_nodup_map hnodup hm' hm hsig)

/-- No two methods of a file have one signature. -/
theorem Settled.nodup_methods (hs : b.Settled) : (b.methods.map fun cm => cm.2.sig).Nodup := by
  have hsigs : (b.methods.map fun cm => cm.2.sig) = b.classes.flatMap fun c => c.methods.map MethodDef.sig := by
    rw [methods, List.map_flatMap]
    simp only [List.map_map]
    rfl
  rw [hsigs, List.nodup_flatMap]
  refine ⟨fun c hc => (hs.distinct c hc).methods, ?_⟩
  have htypes := List.pairwise_map.mp hs.types
  refine htypes.imp_of_mem fun {c c'} hc hc' hne sig hsig hsig' => hne ?_
  obtain ⟨m, hm, rfl⟩ := List.mem_map.mp hsig
  obtain ⟨m', hm', heq⟩ := List.mem_map.mp hsig'
  rw [← (hs.distinct c hc).definingClass_of_method m hm, ← (hs.distinct c' hc').definingClass_of_method m' hm']
  exact congrArg MethodSig.definingClass heq.symm

namespace Complete

variable (hs : b.Complete) {c : ClassDef} (hc : c ∈ b.classes)

include hs hc

theorem has_fieldDef {f : FieldDef} (hf : f ∈ c.fields) {e : Entry} (he : e ∈ Entry.ofFieldDef f) : b.pools.Has e :=
  hs.has c hc e (List.mem_append_left _ (List.mem_append_right _ (List.mem_flatMap.mpr ⟨f, hf, he⟩)))

theorem has_methodDef {m : MethodDef} (hm : m ∈ c.methods) {e : Entry} (he : e ∈ Entry.ofMethodDef m) :
    b.pools.Has e :=
  hs.has c hc e (List.mem_append_right _ (List.mem_flatMap.mpr ⟨m, hm, he⟩))

theorem has_field {f : FieldDef} (hf : f ∈ c.fields) : b.pools.Has (.field f.sig) :=
  hs.has_fieldDef hc hf (List.mem_append_left _ (List.mem_append_right _ (List.mem_singleton_self _)))

theorem has_method {m : MethodDef} (hm : m ∈ c.methods) : b.pools.Has (.method m.sig) :=
  hs.has_methodDef hc hm (List.mem_append_left _ (List.mem_append_right _
    (List.mem_append_right _ (List.mem_singleton_self _))))

theorem has_type : b.pools.Has (.type c.type) := by
  refine hs.has c hc _ ?_
  simp [Entry.ofClass, Entry.ofType]

theorem has_superclass {d : String} (hd : d ∈ c.superclass) : b.pools.Has (.type d) := by
  refine hs.has c hc _ ?_
  rw [Option.mem_def] at hd
  simp [Entry.ofClass, Entry.ofType?, Entry.ofType, hd]

theorem has_interfaces (hne : c.interfaces ≠ []) : b.pools.Has (.typeList c.interfaces) := by
  refine hs.has c hc _ ?_
  simp [Entry.ofClass, Entry.ofTypeList, hne]

theorem has_sourceFile {f : String} (hf : f ∈ c.sourceFile) : b.pools.Has (.string f) := by
  refine hs.has c hc _ ?_
  rw [Option.mem_def] at hf
  simp [Entry.ofClass, Entry.ofString?, hf]

theorem has_staticValues (hne : c.staticValues ≠ []) : b.pools.Has (.array c.staticValues) := by
  refine hs.has c hc _ ?_
  simp [Entry.ofClass, Entry.ofStaticValues, Entry.ofArray, hne]

theorem has_annotations {e : Entry} (he : e ∈ Entry.ofAnnotationSet c.annotations) : b.pools.Has e := by
  refine hs.has c hc e ?_
  simp only [Entry.ofClass, List.mem_append]
  tauto

theorem has_fieldAnnotations {f : FieldDef} (hf : f ∈ c.fields) {e : Entry}
    (he : e ∈ Entry.ofAnnotationSet f.annotations) : b.pools.Has e :=
  hs.has_fieldDef hc hf (List.mem_append_right _ he)

theorem has_methodAnnotations {m : MethodDef} (hm : m ∈ c.methods) {e : Entry}
    (he : e ∈ Entry.ofAnnotationSet m.annotations) : b.pools.Has e :=
  hs.has_methodDef hc hm (List.mem_append_right _ he)

theorem has_parameterAnnotations {m : MethodDef} (hm : m ∈ c.methods) {p : Parameter} (hp : p ∈ m.parameters)
    {e : Entry} (he : e ∈ Entry.ofAnnotationSet p.annotations) : b.pools.Has e := by
  refine hs.has_methodDef hc hm ?_
  simp only [Entry.ofMethodDef, List.mem_append, List.mem_flatMap]
  exact .inl (.inl (.inl (.inl ⟨p, hp, he⟩)))

end Complete

end Blueprint

end Dalvik
