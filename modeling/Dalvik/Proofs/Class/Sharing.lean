import Dalvik.Proofs.Assembly.Markers
import Dalvik.Proofs.Class.Limits

/-!
# Members that share a signature

The tables of a file have one entry for a signature, so members that share one also share
what the tables have for it. `StoredClass.Located.exists_toClass`: a class is copied all
the same, because whatever stands behind an entry of a table has been written for some
member and can be read.
-/

namespace Dalvik

/-! ## Directories -/

namespace Members

variable {α : Type} {members : List α} {p : α → Bool} {key offset : α → UInt32}

/-- A lookup in a table of members does not fail: it ends with nothing or with the offset of
some member. -/
theorem lookup_tableOf_eq_or {d : StoredDirectory} {start : Nat} {lookup : StoredDirectory → UInt32 → Result Nat}
    (h : d.Searches start lookup (tableOf members p key offset))
    (hlt : ∀ m ∈ members, p m = true → (offset m).toNat < extentBound) (index : UInt32) :
    lookup d index = .ok 0 ∨ ∃ m ∈ members, p m = true ∧ lookup d index = .ok (offset m).toNat := by
  rcases h.ends index with hzero | ⟨place, found, hplace, hfound⟩
  · exact .inl hzero
  · obtain ⟨m, hm, hp, heq⟩ := mem_tableOf.mp (List.mem_of_getElem? hplace)
    obtain ⟨-, rfl⟩ := Prod.mk.inj heq
    exact .inr ⟨m, hm, hp, hfound.trans (StoredDirectory.offsetAt_eq (hlt m hm hp) _ _)⟩

end Members

namespace Blueprint.Opens

open Members StoredDirectory

variable {b : Blueprint} {t : DataTables} {image : Image} (h : b.Opens t image) (hb : b.Complete)

include h hb

section directories

variable {c : ClassDef} (hc : c ∈ b.classes) {d : StoredDirectory} (hd : d.Of b t c)

include hc hd

/-- The directory has a set of annotations for every index of a field. -/
theorem exists_fieldAnnotations (index : UInt32) : ∃ annotations : List AnnotationItem,
    (∀ e ∈ Entry.ofAnnotationSet annotations, b.pools.Has e) ∧
    d.fieldOffset index = .ok (setOffset t.sets annotations).toNat := by
  rcases lookup_tableOf_eq_or hd.tables.fields (fun f hf _ => h.setOffset_lt hb.ranked fun e he =>
    hb.has_fieldAnnotations hc hf he) index with hzero | ⟨f, hf, -, hfound⟩
  · exact ⟨[], fun e he => (by cases he), hzero⟩
  · exact ⟨f.annotations, fun e he => hb.has_fieldAnnotations hc hf he, hfound⟩

/-- The directory has a set of annotations for every index of a method. -/
theorem exists_methodAnnotations (index : UInt32) : ∃ annotations : List AnnotationItem,
    (∀ e ∈ Entry.ofAnnotationSet annotations, b.pools.Has e) ∧
    d.methodOffset index = .ok (setOffset t.sets annotations).toNat := by
  rcases lookup_tableOf_eq_or hd.tables.methods (fun m hm _ => h.setOffset_lt hb.ranked fun e he =>
    hb.has_methodAnnotations hc hm he) index with hzero | ⟨m, hm, -, hfound⟩
  · exact ⟨[], fun e he => (by cases he), hzero⟩
  · exact ⟨m.annotations, fun e he => hb.has_methodAnnotations hc hm he, hfound⟩

omit hc in
/-- The directory has lists of annotations of parameters for every index of a method. -/
theorem exists_parameterLists (index : UInt32) : ∃ offset lists,
    d.parameterOffset index = .ok offset ∧ image.ParameterLists offset lists := by
  have hnothing : image.ParameterLists 0 [] := by
    rw [Image.ParameterLists, Image.annotationSetRefs, if_pos rfl]
    rfl
  rcases lookup_tableOf_eq_or hd.tables.parameters (fun m _ _ => h.parameters_lt m.sig) index with hzero | ⟨m, -, -, hfound⟩
  · exact ⟨0, [], hzero, hnothing⟩
  · refine ⟨(offsetIn t.parameters m.sig).toNat, ?_⟩
    rcases h.data.parameters.offsetIn_eq_or h.size_lt m.sig with heq | ⟨form, hitem, hheld, hne, -⟩
    · rw [heq] at hfound ⊢
      exact ⟨[], hfound, hnothing⟩
    · obtain ⟨⟨c', m'⟩, hmem, hitem⟩ := List.mem_map.mp hitem
      obtain ⟨c'', hc'', hmethod⟩ := List.mem_flatMap.mp (List.mem_filter.mp hmem).1
      obtain ⟨m'', hm'', heq⟩ := List.mem_map.mp hmethod
      cases heq
      obtain rfl : Layout.write (parameterSets t.sets m') = form := congrArg Prod.snd hitem
      exact ⟨_, hfound, h.parameterLists_eq hb hc'' hm'' (fun hzero => hne (UInt32.toNat_inj.mp hzero)) hheld⟩

end directories

/-! ## Bodies -/

/-- Whatever the table of code items has for a signature can be copied. -/
theorem exists_bodyAt (hcovers : image.opcodes.Covers b.opcodes) (hsound : ∀ c ∈ b.classes, c.Sound)
    (hsmall : ∀ c ∈ b.classes, c.Small) (sig : MethodSig) :
    ∃ names code?, StoredMethod.BodyAt image (offsetIn t.code sig).toNat names code? := by
  by_cases hne : offsetIn t.code sig = noOffset
  · rw [hne]
    exact ⟨[], none, .none rfl⟩
  · have hundoes := h.resolver_undoes hb
    obtain ⟨c, m, code, stored, hcm, -, hcode, hat, himage, hshows⟩ := h.exists_codeAt hb hcovers
      (fun c hc m hm code hcode => (hsound c hc m hm code hcode).instructions) hne
    subst himage
    have hmem {c : ClassDef} {m : MethodDef} (hcm : (c, m) ∈ b.methods) : c ∈ b.classes ∧ m ∈ c.methods := by
      obtain ⟨c', hc, hm⟩ := List.mem_flatMap.mp hcm
      obtain ⟨m', hm, heq⟩ := List.mem_map.mp hm
      cases heq
      exact ⟨hc, hm⟩
    obtain ⟨hc, hm⟩ := hmem hcm
    have htries := hshows.tries_eq hundoes ((hsound c hc m hm code hcode).tries ((hsmall c hc).code m hm code hcode))
      h.size_lt
    obtain ⟨names, items, hnames, hitems⟩ : ∃ (names : List (Option String)) (items : List DebugItem),
        stored.parameterNames = .ok names ∧
        stored.debugItems = items.map .ok := by
      rcases h.offsetIn_debug_eq_or sig with hnone | ⟨c', m', code', form, hcm', -, hcode', hform, hheld, hne', -⟩
      · have hzero : stored.debugOffset = 0 := by rw [hshows.debugOffset_eq, hnone]; rfl
        exact ⟨[], [], by rw [StoredCode.parameterNames, if_pos hzero], by rw [StoredCode.debugItems, if_pos hzero]; rfl⟩
      · have hzero : stored.debugOffset ≠ 0 := by
          rw [hshows.debugOffset_eq]
          exact fun hzero => hne' (UInt32.toNat_inj.mp hzero)
        rw [← hshows.debugOffset_eq] at hheld
        obtain ⟨hc', hm'⟩ := hmem hcm'
        have hdebug := (hsmall c' hc').code m' hm' code' hcode'
        have hcount := DebugInfo.length_names_lt hform hheld h.size_lt
        exact ⟨_, _, DebugInfo.parameterNames_eq hundoes.values.agrees hform hheld hcount hzero,
          DebugInfo.debugItems_eq hundoes.values.agrees hform hheld hcount hzero hdebug.line_lt hdebug.debug⟩
    obtain ⟨copy, hcopy⟩ : ∃ copy, stored.view.toCode = .ok copy := by
      rw [CodeView.toCode]
      dsimp only [StoredCode.view]
      rw [hshows.instructions, Result.collect_map_ok, Result.ok_bind, htries, Result.ok_bind, hitems,
        Result.collect_map_ok]
      exact ⟨_, rfl⟩
    exact ⟨names, some copy, .some (fun hzero => hne (UInt32.toNat_inj.mp hzero)) hat hnames hcopy⟩

end Blueprint.Opens

/-! ## Classes -/

namespace StoredClass.Located

open Members

variable {s : StoredClass} {b : Blueprint} {t : Blueprint.DataTables} {c : ClassDef} (h : s.Located b t c)
  (hb : b.Complete) (hsmall : ∀ c ∈ b.classes, c.Small)

include h hb hsmall

theorem exists_fields (kind : MemberKind) (hkind : kind.isMethod = false) :
    ∃ fields, FieldView.collect ((s.fields kind).map fun f => f.map StoredField.view) = .ok fields := by
  have hclass := hsmall c h.mem
  obtain ⟨entries, hentries, hall⟩ := h.exists_entries hb kind (h.own_small hclass.fieldFlags hclass.methodFlags)
  rw [FieldView.collect, StoredClass.fields, hentries, List.map_map, List.map_map, List.map_map]
  refine Result.Clean.exists_collect (List.forall_mem_map.mpr fun entry hentry => ?_)
  obtain ⟨row, hrow, hisEntry⟩ := exists_mem_left hall hentry
  rcases exists_member hrow with ⟨-, f, hf, heq⟩ | ⟨hmethod, -⟩
  · have hhidden := Blueprint.reread_hidden hrow hclass.restrictions
    rw [heq] at hisEntry
    obtain ⟨annotations, hhas, hoffset⟩ := h.opens.exists_fieldAnnotations hb h.mem h.directory_of
      (b.pools.fields.indexOrNone f.sig)
    obtain ⟨stored, hfield, hcopy⟩ := h.exists_field hb hf hisEntry hhidden hhas hoffset
    exact ⟨_, (congrArg (fun outcome => outcome.map StoredField.view >>= FieldView.toField) hfield).trans hcopy⟩
  · rw [hkind] at hmethod
    cases hmethod

theorem exists_methods (hcovers : s.image.opcodes.Covers b.opcodes) (hsound : ∀ c ∈ b.classes, c.Sound)
    (kind : MemberKind) (hkind : kind.isMethod = true) :
    ∃ methods, MethodView.collect ((s.methods kind).map fun m => m.map StoredMethod.view) = .ok methods := by
  have hclass := hsmall c h.mem
  obtain ⟨entries, hentries, hall⟩ := h.exists_entries hb kind (h.own_small hclass.fieldFlags hclass.methodFlags)
  rw [MethodView.collect, StoredClass.methods, hentries, List.map_map, List.map_map, List.map_map]
  refine Result.Clean.exists_collect (List.forall_mem_map.mpr fun entry hentry => ?_)
  obtain ⟨row, hrow, hisEntry⟩ := exists_mem_left hall hentry
  rcases exists_member hrow with ⟨hfield, -⟩ | ⟨-, m, hm, heq⟩
  · rw [hkind] at hfield
    cases hfield
  · have hhidden := Blueprint.reread_hidden hrow hclass.restrictions
    rw [heq] at hisEntry
    obtain ⟨annotations, hhas, hoffset⟩ := h.opens.exists_methodAnnotations hb h.mem h.directory_of
      (b.pools.methods.indexOrNone m.sig)
    obtain ⟨offset, lists, hparameters, hlists⟩ := h.opens.exists_parameterLists hb h.directory_of
      (b.pools.methods.indexOrNone m.sig)
    obtain ⟨names, code?, hbody⟩ := h.opens.exists_bodyAt hb hcovers hsound hsmall m.sig
    obtain ⟨stored, hmethod, hcopy⟩ :=
      h.exists_method hb hkind hm hisEntry hhidden hhas hoffset hparameters hlists hbody
    exact ⟨_, (congrArg (fun outcome => outcome.map StoredMethod.view >>= MethodView.toMethod) hmethod).trans hcopy⟩

/-- A class that has been located is copied. -/
theorem exists_toClass (hcovers : s.image.opcodes.Covers b.opcodes) (hsound : ∀ c ∈ b.classes, c.Sound) :
    ∃ copy, s.view.toClass = .ok copy := by
  obtain ⟨statics, hstatics⟩ := h.exists_fields hb hsmall .staticField rfl
  obtain ⟨instances, hinstances⟩ := h.exists_fields hb hsmall .instanceField rfl
  obtain ⟨directs, hdirects⟩ := h.exists_methods hb hsmall hcovers hsound .directMethod rfl
  obtain ⟨virtuals, hvirtuals⟩ := h.exists_methods hb hsmall hcovers hsound .virtualMethod rfl
  exact ⟨_, h.toClass_eq hb hstatics hinstances hdirects hvirtuals⟩

end StoredClass.Located

/-! ## Files -/

/-- A file whose classes are sound and have small numbers is copied. -/
theorem Blueprint.Opens.exists_toDexFile {b : Blueprint} {t : DataTables} {image : Image} (h : b.Opens t image)
    (ht : b.Typed) (hcovers : image.opcodes.Covers b.opcodes) (hsound : ∀ c ∈ b.classes, c.Sound)
    (hsmall : ∀ c ∈ b.classes, c.Small) : ∃ d, image.toDexFile = .ok d := by
  obtain ⟨classes, hclasses⟩ : ∃ classes, (image.view.classes.andThen ClassView.toClass).collect = .ok classes := by
    refine Result.exists_collect fun i hi => ?_
    have hlt : i < b.classes.length := by
      rwa [← List.length_map (b.classDefItem t.toDataOffsets), ← h.identified.classes.size_eq, ← h.classDefs]
    obtain ⟨s, hat, rfl, hlocated⟩ := h.exists_located ht (List.getElem?_eq_getElem hlt)
    obtain ⟨copy, hcopy⟩ := hlocated.exists_toClass ht.toComplete hsmall hcovers hsound
    refine ⟨copy, (?_ : (StoredClass.at? s.image (UInt32.ofNat i)).map StoredClass.view >>= ClassView.toClass = .ok _)⟩
    rw [hat]
    exact hcopy
  have hmarkers : image.view.markers = .ok (b.pools.strings.sortedKeys.filterMap Marker.parse?) :=
    h.markers_eq ht.ranked
  rw [Image.toDexFile, FileView.toDexFile, hclasses, Result.ok_bind, hmarkers]
  exact ⟨_, rfl⟩

end Dalvik
