import Dalvik.Proofs.Assembly.Preservation

/-!
# The annotations of members are found

A directory that has been opened is searched in its own tables only, and exactly
(`StoredDirectory.exists_tables`). In a file that was written, the tables of a class whose
members are told apart ascend, so that each member is led to its own annotations and to
those of its parameters (`Assembly.directories_exact`).
-/

namespace Dalvik

/-! ## Indices of an image -/

/-- Behind one index only is a key found. -/
theorem Pool.Resolved.find_eq_ok_iff {α : Type} [BEq α] [Hashable α] {p : Pool α} {number : α → Result UInt32}
    {find : UInt32 → Result α} (h : p.Resolved number find id) {before : α → α → Prop} (hp : p.Ranked before)
    (hn : Pools.NumbersKeys p number) {key : α} (hkey : key ∈ p.keys) {index : UInt32} :
    find index = .ok key ↔ index = p.indexOrNone key := by
  have hfind {k : α} (hk : k ∈ p.keys) : find (p.indexOrNone k) = .ok k := by
    obtain ⟨i, hi, hfound⟩ := h.finds hk
    rwa [← (hn.of_eq_ok hi).2]
  constructor
  · intro hfound
    have hlt : index.toNat < p.sortedKeys.length := by
      rw [hp.length_sortedKeys]
      by_contra hge
      obtain ⟨e, he⟩ := h.fails (Nat.not_lt.mp hge)
      rw [he] at hfound
      cases hfound
    have hplace : p.indexOrNone p.sortedKeys[index.toNat] = index := by
      rw [hp.index (List.getElem?_eq_getElem hlt), UInt32.ofNat_toNat]
    have hsame := hfind (hp.mem_sortedKeys.mp (List.getElem_mem hlt))
    rw [hplace, hfound] at hsame
    rw [Except.ok.inj hsame, hplace]
  · rintro rfl
    exact hfind hkey

/-! ## What members are led to -/

/-- At an offset are some annotations, in the order of a file; at the offset of nothing there
are none, and only there. -/
def Image.HasAnnotations (image : Image) (offset : Nat) (annotations : List AnnotationItem) : Prop :=
  (offset = 0 ↔ annotations = []) ∧
    AnnotationView.collect ((image.annotationSet offset).map StoredAnnotationItem.view) = .ok (AnnotationItem.kept annotations)

/-- At an offset are the annotations of the parameters of a method; at the offset of nothing
there are none, and only there. -/
def Image.HasParameterAnnotations (image : Image) (offset : Nat) (m : MethodDef) : Prop :=
  (offset = 0 ↔ ∀ p ∈ m.parameters, p.annotations = []) ∧ image.ParameterLists offset m.keptLists

/-- A directory annotates a class: its tables ascend, and under the index of each member they
have what this member is annotated with. -/
structure StoredDirectory.Annotates (d : StoredDirectory) (c : ClassDef) : Prop where
  tables : ∃ fields methods parameters, d.Tables fields methods parameters ∧
    Ascends fields ∧ Ascends methods ∧ Ascends parameters
  field : ∀ f ∈ c.fields, ∃ index, (∀ i, d.image.field i = .ok f.sig ↔ i = index) ∧
    ∃ offset, d.fieldOffset index = .ok offset ∧ d.image.HasAnnotations offset f.annotations
  method : ∀ m ∈ c.methods, ∃ index, (∀ i, d.image.method i = .ok m.sig ↔ i = index) ∧
    (∃ offset, d.methodOffset index = .ok offset ∧ d.image.HasAnnotations offset m.annotations) ∧
    ∃ offset, d.parameterOffset index = .ok offset ∧ d.image.HasParameterAnnotations offset m

/-- In what order the members stand does not matter. -/
theorem StoredDirectory.Annotates.of_ordered {d : StoredDirectory} {c : ClassDef} (h : d.Annotates c.ordered) :
    d.Annotates c where
  tables := h.tables
  field f hf := h.field f (c.perm_fields_ordered.mem_iff.mpr hf)
  method m hm := h.method m (c.perm_methods_ordered.mem_iff.mpr hm)

/-- The offset of nothing is zero. -/
theorem toNat_eq_zero_iff {offset : UInt32} : offset.toNat = 0 ↔ offset = noOffset :=
  UInt32.toNat_inj (b := 0)

namespace Blueprint.Opens

open Members StoredDirectory

variable {b : Blueprint} {t : DataTables} {image : Image} (h : b.Opens t image) (hb : b.Complete)

include h hb

theorem hasAnnotations {annotations : List AnnotationItem}
    (hhas : ∀ e ∈ Entry.ofAnnotationSet annotations, b.pools.Has e) :
    image.HasAnnotations (setOffset t.sets annotations).toNat annotations :=
  ⟨toNat_eq_zero_iff.trans (h.setOffset_eq_noOffset_iff hb.ranked hhas), h.annotationSet_eq hb.ranked hb.closed hhas⟩

theorem hasParameterAnnotations {c : ClassDef} (hc : c ∈ b.classes) {m : MethodDef} (hm : m ∈ c.methods)
    (halone : ∀ cm ∈ b.methods, cm.2.sig = m.sig → cm.2 = m) :
    image.HasParameterAnnotations (offsetIn t.parameters m.sig).toNat m := by
  obtain ⟨hnone, hlists⟩ := h.parameterLists_found hb hc hm halone
  refine ⟨toNat_eq_zero_iff.trans (hnone.trans ?_), hlists⟩
  simp only [Members.hasParameterAnnotations, List.any_eq_false, Bool.not_eq_true, Bool.not_eq_false', List.isEmpty_iff]

/-- The directory of a class leads to what its members are annotated with, if they are told
apart and no other class has methods of this one. -/
theorem annotates {c : ClassDef} (hc : c ∈ b.classes) (hdistinct : c.Distinct)
    (halone : ∀ m ∈ c.methods, ∀ cm ∈ b.methods, cm.2.sig = m.sig → cm.2 = m) {d : StoredDirectory}
    (himage : d.image = image) (hd : d.Of b t c) : d.Annotates c := by
  subst himage
  obtain ⟨hfields, hmethods, hparameters⟩ := h.searchable_directory hc hb hdistinct
  have hleads := h.leadsTo_of hc hb hdistinct hd
  have hnumbers := hb.ranked.numbers hb.closed
  have hresolves := h.resolves hb.ranked hb.closed
  refine ⟨⟨_, _, _, hd.tables, hfields.ascending, hmethods.ascending, hparameters.ascending⟩,
    fun f hf => ⟨_, fun i => hresolves.field.find_eq_ok_iff hb.ranked.fields hnumbers.field (hb.has_field hc hf), ?_⟩,
    fun m hm => ⟨_, fun i => hresolves.method.find_eq_ok_iff hb.ranked.methods hnumbers.method (hb.has_method hc hm), ?_⟩⟩
  · exact ⟨_, hleads.fieldOffset f hf, h.hasAnnotations hb fun e he => hb.has_fieldAnnotations hc hf he⟩
  · exact ⟨⟨_, hleads.methodOffset m hm, h.hasAnnotations hb fun e he => hb.has_methodAnnotations hc hm he⟩,
      ⟨_, hleads.parameterOffset m hm, h.hasParameterAnnotations hb hc hm (halone m hm)⟩⟩

end Blueprint.Opens

namespace Assembly

/-- Whatever an assembly has been called for, in the file that it is written as the directory of
a class whose members are told apart leads to what they are annotated with. -/
theorem Sealed.annotates {a : Assembly} (h : a.Sealed) {bytes : Bytes} (hwritten : a.blueprint.write = .ok bytes)
    (hsize : bytes.size < extentBound) (hown : ∀ c ∈ a.blueprint.classes, ∀ m ∈ c.methods, m.definingClass = c.type) :
    ∃ image, Image.ofBytes bytes = .ok image ∧ ∀ c ∈ a.classes, c.Distinct →
      ∃ index s, StoredClass.at? image index = .ok s ∧ s.view.type = .ok c.type ∧ s.directory.image = image ∧
        s.directory.Annotates c := by
  obtain ⟨t, image, himage, -, hopens⟩ := Blueprint.opens_write h.ranked hwritten hsize
  refine ⟨image, himage, fun c hc hdistinct => ?_⟩
  have hmem : c ∈ a.blueprint.classes := (ClassOrder.arrange_perm _).mem_iff.mpr (Array.mem_toList_iff.mpr hc)
  obtain ⟨i, hi⟩ := List.getElem?_of_mem hmem
  obtain ⟨s, hat, rfl, hlocated⟩ := hopens.exists_located h.typed hi
  -- The annotations of parameters go by signatures alone, so no other class may have a method of this one.
  have halone : ∀ m ∈ c.methods, ∀ cm ∈ a.blueprint.methods, cm.2.sig = m.sig → cm.2 = m := fun m hm cm hcm hsig =>
    congrArg Prod.snd (h.typed.eq_of_sig hown hmem hdistinct.methods hm hcm hsig)
  exact ⟨_, s, hat, hlocated.type_eq h.typed.toComplete, hlocated.directory_image,
    hopens.annotates h.typed.toComplete hmem hdistinct halone hlocated.directory_image hlocated.directory_of⟩

/-- Directories are searched exactly. Whatever is opened as a directory has three tables, one
behind the other, and a lookup reads its own table only. In a written file the tables of a
class whose members are told apart ascend, and lead each member to its own annotations. -/
theorem directories_exact :
    (∀ (image : Image) (offset : Nat) (d : StoredDirectory), StoredDirectory.at? image offset = .ok d →
      d.image = image ∧ d.offset = offset ∧ ∃ fields methods parameters, d.Tables fields methods parameters) ∧
    ∀ (opcodes : Opcodes) (calls : List Call) (a : Assembly) (bytes : Bytes), history opcodes calls = a →
      (write.on a).1 = .ok bytes → bytes.size < extentBound →
      (∀ c, Added opcodes calls c → ∀ m ∈ c.methods, m.definingClass = c.type) →
      ∃ image, Image.ofBytes bytes = .ok image ∧ ∀ c, Added opcodes calls c → c.Distinct →
        ∃ index s, StoredClass.at? image index = .ok s ∧ s.view.type = .ok c.type ∧ s.directory.image = image ∧
          s.directory.Annotates c := by
  refine ⟨fun image offset d hat => ?_, fun opcodes calls a bytes ha hwrite hsize hown => ?_⟩
  · obtain ⟨himage, hoffset⟩ : d.image = image ∧ d.offset = offset := by
      rcases StoredDirectory.cases_of_at? hat with ⟨-, rfl⟩ | ⟨-, himage, hoffset, -⟩
      · exact ⟨rfl, rfl⟩
      · exact ⟨himage, hoffset⟩
    exact ⟨himage, hoffset, StoredDirectory.exists_tables hat⟩
  · obtain ⟨hsealed, hwritten⟩ := (ha ▸ reliable_history opcodes calls : a.Reliable).sealed_of_write hwrite
    have hclasses : ∀ c, c ∈ a.classes ↔ ∃ added, Added opcodes calls added ∧ c = added.ordered := fun _ =>
      ha ▸ mem_classes_history opcodes calls
    obtain ⟨image, himage, hleads⟩ := hsealed.annotates hwritten hsize ((definingClass_iff ha).mpr hown)
    refine ⟨image, himage, fun c hadded hdistinct => ?_⟩
    obtain ⟨index, s, hat, htype, hdirectory, hs⟩ := hleads c.ordered ((hclasses _).mpr ⟨c, hadded, rfl⟩) hdistinct.ordered
    exact ⟨index, s, hat, htype, hdirectory, hs.of_ordered⟩

/-- Of the two static fields the first is led to its annotation, and the second to nothing. -/
theorem directories_exact_annotated : ∃ a bytes image index s,
    history .standard (callsFor DexFile.annotatedClass) = a ∧ (write.on a).1 = .ok bytes ∧ bytes.size < extentBound ∧
    (∀ c, Added .standard (callsFor DexFile.annotatedClass) c → ∀ m ∈ c.methods, m.definingClass = c.type) ∧
    Added .standard (callsFor DexFile.annotatedClass) DexFile.annotatedClass ∧ DexFile.annotatedClass.Distinct ∧
    Image.ofBytes bytes = .ok image ∧ StoredClass.at? image index = .ok s ∧
    s.directory.Annotates DexFile.annotatedClass ∧
    (∃ f offset, image.field f = .ok ⟨"LA;", "f", "I"⟩ ∧ s.directory.fieldOffset f = .ok offset ∧ offset ≠ 0) ∧
    ∃ g, image.field g = .ok ⟨"LA;", "g", "I"⟩ ∧ s.directory.fieldOffset g = .ok 0 := by
  obtain ⟨a, bytes, -, -, ha, hclasses, hwrite, hsize, -, -⟩ := exists_annotated
  have hdistinct : DexFile.annotatedClass.Distinct := ⟨by decide, by decide, by decide, by decide⟩
  have hown := (definingClass_iff ha).mp (by simpa [hclasses] using hdistinct.definingClass_of_method)
  obtain ⟨image, himage, hleads⟩ := directories_exact.2 _ _ a bytes ha hwrite hsize hown
  obtain ⟨index, s, hat, -, rfl, hs⟩ := hleads _ added_annotated hdistinct
  obtain ⟨f, hf, offset, hoffset, hset, -⟩ := hs.field _ List.mem_cons_self
  obtain ⟨g, hg, none, hnone, hempty, -⟩ := hs.field _ (List.mem_cons_of_mem _ List.mem_cons_self)
  refine ⟨a, bytes, _, index, s, ha, hwrite, hsize, hown, added_annotated, hdistinct, himage, hat, hs,
    ⟨f, offset, (hf f).mpr rfl, hoffset, fun hzero => ?_⟩, g, (hg g).mpr rfl, ?_⟩
  · cases hset.mp hzero
  · rw [hnone, hempty.mpr rfl]

end Assembly

end Dalvik
