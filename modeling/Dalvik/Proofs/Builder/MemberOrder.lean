import Mathlib.Data.List.TakeWhile
import Dalvik.Proofs.Builder.FormatOrder
import Dalvik.Proofs.Class.MemberOrder

/-!
# The order of members and the order of their handles

The members of a class are put in order by the strings that they are made of before any of
them has a handle, and their handles have indices only when the arenas are sealed, each by
the indices of those before. As long as every key has a handle of its own, both orders are
one (`memberDeltas_followIndices`). More fields than there are indices are never in order
(`not_memberDeltas_manyFields`).
-/

namespace Dalvik

/-- The key behind a handle of a sealed arena is spelled as given. -/
def Arena.Spells {κ α : Type} [BEq κ] [Hashable κ] (a : Arena κ) (spell? : κ → Option α) (h : Handle κ) (x : α) : Prop :=
  ∃ key, a.key h = .ok key ∧ spell? key = some x

namespace Builder

open Assembly (Request)

section follows

variable {a : Arenas} {p : Pools} (h : Arenas.Codes p a p) (hr : p.Ranked) (hb : p.Bounded)

include h hr in
theorem spells_field {k : Handle FieldKey} {f : FieldSig} (hk : k.Names p.fields f) :
    a.fields.Spells a.fieldOf? k f := by
  obtain ⟨key, hkey, hf⟩ := h.fields.exists_key hr.wellFormed.fields (h.fields.isSealed_eq.trans hr.fields.isFinalized) hk
  exact ⟨key, hkey, Arenas.fieldOf?_eq h hr.wellFormed hf⟩

include h hr in
theorem spells_method {k : Handle MethodKey} {m : MethodSig} (hk : k.Names p.methods m) :
    a.methods.Spells a.methodOf? k m := by
  obtain ⟨key, hkey, hm⟩ :=
    h.methods.exists_key hr.wellFormed.methods (h.methods.isSealed_eq.trans hr.methods.isFinalized) hk
  exact ⟨key, hkey, Arenas.methodOf?_eq h hr.wellFormed hm⟩

include h hr hb

/-- Fields of one class that are in order are in the order of the indices of their handles. -/
theorem fields_followIndices (k : InternedClass) {handles : List InternedField} {fields : List FieldDef}
    (hcodes : List.Forall₂ (InternedField.Codes p) handles fields)
    (hsorted : fields.Pairwise fun f g => (SortKey.compare f.sortKey g.sortKey).isLE = true)
    (hclass : ∀ f ∈ fields, ∀ g ∈ fields, f.definingClass = g.definingClass) :
    Members.FollowsIndices (handles.map fun i => a.fields.index i.handle) fields FieldDef.sig FieldDef.sortKey
      (.fieldsOutOfOrder k.definition.type) (k.fieldDeltas a handles) := by
  have hindices : handles.map (fun i => a.fields.index i.handle) = fields.map fun f => p.fields.indexOrNone f.sig :=
    map_eq_map_of_forall₂ hcodes fun _ _ hi => h.fields.index_eq hi.handle
  have hmem : ∀ f ∈ fields, f.sig ∈ p.fields.keys := fun f hf => by
    obtain ⟨i, -, hi⟩ := exists_mem_left hcodes hf
    exact hi.handle.mem hr.fields.wellFormed
  rw [InternedClass.fieldDeltas, hindices]
  exact hr.fields.followsIndices hb.fields hmem (fun f hf g hg => FieldDef.compare_sig (hclass f hf g hg)) hsorted

/-- Methods of one class that are in order are in the order of the indices of their handles. -/
theorem methods_followIndices (k : InternedClass) {handles : List InternedMethod} {methods : List MethodDef}
    (hcodes : List.Forall₂ (InternedMethod.Codes p) handles methods)
    (hsorted : methods.Pairwise fun m n => (SortKey.compare m.sortKey n.sortKey).isLE = true)
    (hclass : ∀ m ∈ methods, ∀ n ∈ methods, m.definingClass = n.definingClass) :
    Members.FollowsIndices (handles.map fun i => a.methods.index i.handle) methods MethodDef.sig MethodDef.sortKey
      (.methodsOutOfOrder k.definition.type) (k.methodDeltas a handles) := by
  have hindices : handles.map (fun i => a.methods.index i.handle) = methods.map fun m => p.methods.indexOrNone m.sig :=
    map_eq_map_of_forall₂ hcodes fun _ _ hi => h.methods.index_eq hi.handle
  have hmem : ∀ m ∈ methods, m.sig ∈ p.methods.keys := fun m hm => by
    obtain ⟨i, -, hi⟩ := exists_mem_left hcodes hm
    exact hi.handle.mem hr.methods.wellFormed
  rw [InternedClass.methodDeltas, hindices]
  exact hr.methods.followsIndices hb.methods hmem (fun m hm n hn => MethodDef.compare_sig (hclass m hm n hn)) hsorted

end follows

/-! ## Members of added classes -/

/-- As long as every key has a handle of its own: in every class of a finalized builder the
handles stand for the members in order, and each list of members of one class has the
differences between their indices, unless a member is listed twice. -/
theorem memberDeltas_followIndices (opcodes : Opcodes) (requests : List Request)
    (hbounded : (gather opcodes requests).arenas.Bounded) :
    ∃ b, finalize.on (gather opcodes requests) = (.ok (), b) ∧ ∀ k ∈ b.classes,
      (∃ c : ClassDef, k.definition = c.ordered) ∧
      (∀ l ∈ k.fieldLists,
        List.Forall₂ (fun i f => b.arenas.fields.Spells b.arenas.fieldOf? i.handle (FieldDef.sig f)) l.1 l.2 ∧
        ((∀ f ∈ l.2, ∀ g ∈ l.2, f.definingClass = g.definingClass) →
          Members.FollowsIndices (l.1.map fun i => b.arenas.fields.index i.handle) l.2 FieldDef.sig FieldDef.sortKey
            (.fieldsOutOfOrder k.definition.type) (k.fieldDeltas b.arenas l.1))) ∧
      (∀ l ∈ k.methodLists,
        List.Forall₂ (fun i m => b.arenas.methods.Spells b.arenas.methodOf? i.handle (MethodDef.sig m)) l.1 l.2 ∧
        ((∀ m ∈ l.2, ∀ n ∈ l.2, m.definingClass = n.definingClass) →
          Members.FollowsIndices (l.1.map fun i => b.arenas.methods.index i.handle) l.2 MethodDef.sig MethodDef.sortKey
            (.methodsOutOfOrder k.definition.type) (k.methodDeltas b.arenas l.1))) := by
  obtain ⟨b, hfinalize, hb⟩ := finalize_gather opcodes requests (.inl hbounded)
  have hgathered := Assembly.gathered_gather opcodes requests
  have hr := hgathered.growing.ranked_finalized
  refine ⟨b, hfinalize, fun k hk => ?_⟩
  obtain ⟨c, hc, hcodes⟩ := exists_mem_right hb.gathers.classes (Array.mem_toList_iff.mpr hk)
  obtain ⟨c, rfl⟩ := hgathered.ordered c (Array.mem_toList_iff.mp hc)
  refine ⟨⟨c, hcodes.definition⟩, fun l hl => ?_, fun l hl => ?_⟩
  · have hl : List.Forall₂ (InternedField.Codes (Assembly.gather opcodes requests).finalized.pools) l.1 l.2 ∧
        l.2.Pairwise fun f g => (SortKey.compare f.sortKey g.sortKey).isLE = true := by
      rw [InternedClass.fieldLists, hcodes.definition] at hl
      rcases List.mem_pair.mp hl with rfl | rfl
      · exact ⟨hcodes.staticFields, ClassDef.sortedBy_pairwise ..⟩
      · exact ⟨hcodes.instanceFields, ClassDef.sortedBy_pairwise ..⟩
    exact ⟨hl.1.imp fun _ _ hi => spells_field hb.gathers.arenas hr hi.handle,
      fields_followIndices hb.gathers.arenas hr hb.bounded k hl.1 hl.2⟩
  · have hl : List.Forall₂ (InternedMethod.Codes (Assembly.gather opcodes requests).finalized.pools) l.1 l.2 ∧
        l.2.Pairwise fun m n => (SortKey.compare m.sortKey n.sortKey).isLE = true := by
      rw [InternedClass.methodLists, hcodes.definition] at hl
      rcases List.mem_pair.mp hl with rfl | rfl
      · exact ⟨hcodes.directMethods, ClassDef.sortedBy_pairwise ..⟩
      · exact ⟨hcodes.virtualMethods, ClassDef.sortedBy_pairwise ..⟩
    exact ⟨hl.1.imp fun _ _ hi => spells_method hb.gathers.arenas hr hi.handle,
      methods_followIndices hb.gathers.arenas hr hb.bounded k hl.1 hl.2⟩

/-- A class with two fields and with two methods of one name, both out of order. -/
def overloaded : ClassDef :=
  ClassDef.make "LA;" ⟨1⟩ none [] none []
    [{ definingClass := "LA;", name := "b", type := "I", flags := ⟨1⟩ },
      { definingClass := "LA;", name := "a", type := "J", flags := ⟨1⟩ }]
    [{ definingClass := "LA;", name := "run", parameters := [⟨"J", none, []⟩], returnType := "V", flags := ⟨1⟩ },
      { definingClass := "LA;", name := "run", parameters := [], returnType := "V", flags := ⟨1⟩ }]

/-- The members of a class that come out of order have differences once they are in
order. -/
theorem memberDeltas_followIndices_overloaded :
    (gather .standard [.classDef overloaded.view]).arenas.Bounded ∧
      ∃ b, finalize.on (gather .standard [.classDef overloaded.view]) = (.ok (), b) ∧ ∃ k ∈ b.classes,
        k.definition = overloaded.ordered ∧ (∃ ds, k.fieldDeltas b.arenas k.instanceFields = .ok ds) ∧
        ∃ ds, k.methodDeltas b.arenas k.virtualMethods = .ok ds := by
  have hbounded := bounded_gather .standard [.classDef overloaded.view] (by cbv)
  obtain ⟨b, hfinalize, hfollow⟩ := memberDeltas_followIndices .standard [.classDef overloaded.view] hbounded
  obtain ⟨b', hfinalize', hb⟩ := finalize_gather .standard [.classDef overloaded.view] (.inl hbounded)
  obtain rfl : b' = b := congrArg Prod.snd (hfinalize'.symm.trans hfinalize)
  -- The class that is asked for is the one that is kept.
  have hview : overloaded.view.toClass = .ok overloaded := by rfl
  have hmem : overloaded.ordered ∈ (Assembly.gather .standard [.classDef overloaded.view]).classes.toList := by
    have hclass : (Request.classDef overloaded.view).class? = some overloaded.ordered := by
      rw [Request.class?, hview]
      rfl
    have hdistinct : (Assembly.addedTypes [.classDef overloaded.view]).Nodup := List.nodup_singleton _
    rw [Assembly.classes_gather .standard hdistinct, List.filterMap_cons_some hclass]
    exact List.mem_cons_self
  obtain ⟨k, hk, hcodes⟩ := exists_mem_left hb.gathers.classes hmem
  have hk := Array.mem_toList_iff.mp hk
  obtain ⟨-, hfields, hmethods⟩ := hfollow k hk
  have hinstance : overloaded.ordered.instanceFields.Perm overloaded.instanceFields := ClassDef.sortedBy_perm ..
  have hvirtual : overloaded.ordered.virtualMethods.Perm overloaded.virtualMethods := ClassDef.sortedBy_perm ..
  have hlists : (k.instanceFields, overloaded.ordered.instanceFields) ∈ k.fieldLists ∧
      (k.virtualMethods, overloaded.ordered.virtualMethods) ∈ k.methodLists := by
    rw [InternedClass.fieldLists, InternedClass.methodLists, hcodes.definition]
    exact ⟨List.mem_cons_of_mem _ List.mem_cons_self, List.mem_cons_of_mem _ List.mem_cons_self⟩
  refine ⟨hbounded, b', hfinalize, k, hk, hcodes.definition, ?_, ?_⟩
  · have hsame : ∀ f ∈ overloaded.ordered.instanceFields, f.definingClass = "LA;" := fun f hf => by
      have hall : ∀ f ∈ overloaded.instanceFields, f.definingClass = "LA;" := by decide
      exact hall f (hinstance.mem_iff.mp hf)
    refine ((hfields _ hlists.1).2 fun f hf g hg => (hsame f hf).trans (hsame g hg).symm).exists_iff.mpr ?_
    exact (hinstance.map _).nodup_iff.mpr (by decide)
  · have hsame : ∀ m ∈ overloaded.ordered.virtualMethods, m.definingClass = "LA;" := fun m hm => by
      have hall : ∀ m ∈ overloaded.virtualMethods, m.definingClass = "LA;" := by decide
      exact hall m (hvirtual.mem_iff.mp hm)
    refine ((hmethods _ hlists.2).2 fun m hm n hn => (hsame m hm).trans (hsame n hn).symm).exists_iff.mpr ?_
    exact (hvirtual.map _).nodup_iff.mpr (by decide)

/-! ## More fields than indices -/

/-- The work leaves the prototypes as they are, and what it yields is as `After` says. -/
def Spares {β : Type} (work : Interning β) (After : β → Prop) : Prop :=
  ∀ (a b : Arenas) (v : β), work.on a = (.ok v, b) → b.protos = a.protos ∧ After v

namespace Spares

variable {β γ : Type} {work : Interning β} {After : β → Prop} {Last : γ → Prop}

theorem pure {v : β} (h : After v) : Spares (Pure.pure v) After := fun a b w hw => by
  cases hw
  exact ⟨rfl, h⟩

theorem bind (h : Spares work After) {next : β → Interning γ} (hnext : ∀ v, After v → Spares (next v) Last) :
    Spares (work >>= next) Last := fun a c w hw => by
  rw [ExceptT.on_bind] at hw
  rcases hv : work.on a with ⟨e | v, b⟩
  · rw [hv] at hw
    cases hw
  · rw [hv] at hw
    obtain ⟨hsame, hafter⟩ := h a b v hv
    obtain ⟨hsame', hlast⟩ := hnext v hafter b c w hw
    exact ⟨hsame'.trans hsame, hlast⟩

theorem mapM {α : Type} {f : α → Interning β} (l : List α) (h : ∀ x ∈ l, Spares (f x) fun _ => True) :
    Spares (l.mapM f) fun vs => vs.length = l.length := by
  induction l with
  | nil => exact .pure rfl
  | cons x l ih =>
    rw [List.mapM_cons]
    refine (h x List.mem_cons_self).bind fun v _ => ?_
    refine (ih fun y hy => h y (List.mem_cons_of_mem x hy)).bind fun vs hvs => ?_
    exact .pure (congrArg (· + 1) hvs)

theorem internIn {κ : Type} [BEq κ] [Hashable κ] {arena : Arenas → Arena κ} {put : Arenas → Arena κ → Arenas} {key : κ}
    (hput : ∀ a b, (put a b).protos = a.protos) : Spares (internIn arena put key) fun _ => True := fun a b h hh => by
  cases hintern : (arena a).intern key with
  | ok made =>
    rw [on_internIn a hintern] at hh
    cases hh
    exact ⟨hput a made.2, trivial⟩
  | error e =>
    rw [on_internIn_error a hintern] at hh
    cases hh

theorem string (s : String) : Spares (internString s) fun _ => True := by
  unfold internString
  exact internIn fun _ _ => rfl

theorem type (d : String) : Spares (internType d) fun _ => True := by
  unfold internType
  refine (string d).bind fun name _ => ?_
  exact internIn fun _ _ => rfl

theorem field (f : FieldSig) : Spares (internField f) fun _ => True := by
  unfold internField
  refine (type f.definingClass).bind fun definingClass _ => ?_
  refine (string f.name).bind fun name _ => (type f.type).bind fun type _ => ?_
  exact internIn fun _ _ => rfl

theorem fieldDef {f : FieldDef} (h : f.annotations = []) : Spares (internFieldDef f) fun _ => True := by
  unfold internFieldDef internAnnotationSet
  rw [h]
  exact (field f.sig).bind fun handle _ => .pure trivial

end Spares

/-- A class that has nothing but static fields. -/
def classOfFields (type : String) (fields : List FieldDef) : ClassDef where
  type
  flags := ⟨1⟩
  superclass := none
  interfaces := []
  sourceFile := none
  annotations := []
  staticFields := fields
  instanceFields := []
  directMethods := []
  virtualMethods := []

section classOfFields

variable (type : String) {fields : List FieldDef} (hannotations : ∀ f ∈ fields, f.annotations = [])

include hannotations

theorem toClass_classOfFields : (classOfFields type fields).view.toClass = .ok (classOfFields type fields) := by
  have hfields : FieldView.collect (fields.map fun f => (.ok f.view : Result FieldView)) = .ok fields := by
    rw [FieldView.collect, List.map_map, Result.collect_map_eq fun f hf => ?_, List.map_id]
    have hf := hannotations f hf
    obtain ⟨definingClass, name, type, flags, value, annotations, hidden⟩ := f
    cases hf
    rfl
  rw [ClassView.toClass]
  show (ClassView.toClassOf _ type).within _ = _
  rw [ClassView.toClassOf]
  dsimp only [ClassDef.view, classOfFields]
  rw [hfields]
  rfl

/-- Interning a class of fields without values spares the prototypes. -/
theorem spares_classOfFields (hvalues : (classOfFields type fields).staticValues = []) :
    Spares (internClass (classOfFields type fields)) fun k =>
      k.definition = classOfFields type fields ∧ k.staticFields.length = fields.length := by
  have hfields := Spares.mapM (f := internFieldDef) fields fun f hf => .fieldDef (hannotations f hf)
  unfold internClass
  rw [hvalues]
  refine (Spares.type type).bind fun type _ => ?_
  refine hfields.bind fun staticFields hlength => ?_
  exact .pure ⟨rfl, hlength⟩

/-- A builder to which such a class alone is added can be finalized, however many fields the
class has. -/
theorem exists_finalize_classOfFields (opcodes : Opcodes) (hdefault : ∀ f ∈ fields, f.initialValue.isDefault = true) :
    ∃ b, finalize.on (gather opcodes [.classDef (classOfFields type fields).view]) = (.ok (), b) ∧ ∃ k ∈ b.classes,
      k.definition = classOfFields type (ClassDef.sortedBy FieldDef.sortKey fields) ∧
      k.staticFields.length = fields.length := by
  have hperm : (ClassDef.sortedBy FieldDef.sortKey fields).Perm fields := ClassDef.sortedBy_perm ..
  have hordered : (classOfFields type fields).ordered =
      classOfFields type (ClassDef.sortedBy FieldDef.sortKey fields) := by
    simp [ClassDef.ordered, classOfFields, ClassDef.sortedBy]
  have hvalues : (classOfFields type (ClassDef.sortedBy FieldDef.sortKey fields)).staticValues = [] := by
    rw [ClassDef.staticValues, List.reverse_eq_nil_iff, List.dropWhile_eq_nil_iff]
    intro v hv
    obtain ⟨f, hf, rfl⟩ := List.mem_map.mp (List.mem_reverse.mp hv)
    exact hdefault f (hperm.mem_iff.mp hf)
  obtain ⟨k, arenas, hk, hopen, -⟩ := makes_class (classOfFields type fields).ordered {} Arenas.open_empty
  obtain ⟨hprotos, hdefinition, hlength⟩ :=
    spares_classOfFields type (fun f hf => hannotations f (hperm.mem_iff.mp hf)) hvalues _ _ _ (hordered ▸ hk)
  have hinterns : (interns (.classDef (classOfFields type fields).view)).on {} = (.ok (some k), arenas) := by
    rw [interns, toClass_classOfFields type hannotations]
    dsimp only
    rw [ExceptT.on_map, hk]
    rfl
  have hnew : ((Request.classDef (classOfFields type fields).view).class?.any fun c =>
      ({ opcodes } : Builder).claimed.contains c.type) = false := by
    cases (Request.classDef (classOfFields type fields).view).class? <;> simp
  have hgather : gather opcodes [.classDef (classOfFields type fields).view] = after { opcodes } _ := rfl
  rw [hgather, after_eq (b := { opcodes }) Arenas.open_empty _ hinterns, hnew, if_neg Bool.false_ne_true]
  obtain ⟨sealed, hsealed, -⟩ := Arenas.exists_finalize hopen (by simp [hprotos])
  refine ⟨_, on_finalize hopen hsealed, k, ?_, hdefinition, hlength.trans hperm.length_eq⟩
  simp

/-- Its fields have no differences when there are more of them than indices. -/
theorem exists_fieldDeltas_fail (opcodes : Opcodes) (hdefault : ∀ f ∈ fields, f.initialValue.isDefault = true)
    (hclass : ∀ f ∈ fields, f.definingClass = type) (hdistinct : (fields.map FieldDef.sig).Nodup)
    (hmany : UInt32.size < fields.length) :
    ∃ b, finalize.on (gather opcodes [.classDef (classOfFields type fields).view]) = (.ok (), b) ∧ ∃ k ∈ b.classes,
      (∀ f ∈ k.definition.staticFields, ∀ g ∈ k.definition.staticFields, f.definingClass = g.definingClass) ∧
      (k.definition.staticFields.map FieldDef.sig).Nodup ∧ ¬ ∃ ds, k.fieldDeltas b.arenas k.staticFields = .ok ds := by
  obtain ⟨b, hfinalize, k, hk, hdefinition, hlength⟩ := exists_finalize_classOfFields type hannotations opcodes hdefault
  have hperm : (ClassDef.sortedBy FieldDef.sortKey fields).Perm fields := ClassDef.sortedBy_perm ..
  have hclass : ∀ f ∈ ClassDef.sortedBy FieldDef.sortKey fields, f.definingClass = type := fun f hf =>
    hclass f (hperm.mem_iff.mp hf)
  refine ⟨b, hfinalize, k, hk, ?_, ?_, fun ⟨ds, hds⟩ => ?_⟩
  · rw [hdefinition]
    exact fun f hf g hg => (hclass f hf).trans (hclass g hg).symm
  · rw [hdefinition]
    exact (hperm.map _).nodup_iff.mpr hdistinct
  · have hle := Members.length_le_of_deltas hds
    rw [List.length_map, hlength] at hle
    exact Nat.not_le_of_lt hmany hle

end classOfFields

/-- Different fields of one class. -/
def manyFields (count : Nat) : List FieldDef :=
  (List.range count).map fun n => { definingClass := "LA;", name := toString n, type := "I", flags := ⟨9⟩ }

/-- The members of a list are all different and of one class, and yet there are no differences
between their indices: there are more members than indices. -/
theorem not_memberDeltas_manyFields :
    ∃ b, finalize.on (gather .standard [.classDef (classOfFields "LA;" (manyFields (UInt32.size + 1))).view]) = (.ok (), b) ∧
      ∃ k ∈ b.classes,
        (∀ f ∈ k.definition.staticFields, ∀ g ∈ k.definition.staticFields, f.definingClass = g.definingClass) ∧
        (k.definition.staticFields.map FieldDef.sig).Nodup ∧ ¬ ∃ ds, k.fieldDeltas b.arenas k.staticFields = .ok ds := by
  have hplain {count : Nat} {f : FieldDef} (hf : f ∈ manyFields count) :
      f.definingClass = "LA;" ∧ f.annotations = [] ∧ f.initialValue.isDefault = true := by
    obtain ⟨n, -, rfl⟩ := List.mem_map.mp hf
    exact ⟨rfl, rfl, rfl⟩
  have hdistinct (count : Nat) : ((manyFields count).map FieldDef.sig).Nodup := by
    rw [manyFields, List.map_map]
    exact List.nodup_range.map fun m n h => Nat.repr_injective (congrArg FieldSig.name h)
  have hlength (count : Nat) : (manyFields count).length = count := by rw [manyFields, List.length_map, List.length_range]
  exact exists_fieldDeltas_fail "LA;" (fun f hf => (hplain hf).2.1) .standard (fun f hf => (hplain hf).2.2)
    (fun f hf => (hplain hf).1) (hdistinct _) (by rw [hlength]; exact Nat.lt_succ_self _)

end Builder

end Dalvik
