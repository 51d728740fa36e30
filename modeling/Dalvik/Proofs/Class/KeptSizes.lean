import Dalvik.Assembly.Data
import Dalvik.Proofs.Assembly.Trailing
import Dalvik.Proofs.Class.Directory
import Dalvik.Proofs.Class.KeptEntries
import Dalvik.Proofs.Class.Room

/-!
# What is written of a class that is given back

What is written of a class that a file gives back takes up no more room than what was
written of the class before, if the pools number members alike and no offset has grown:
its class data, its annotations directory, the annotations of its parameters and its
hidden API data.
-/

namespace Dalvik

open Draft (Below)
open Result (Leads)

/-! ## Lists of members -/

theorem Shortens.zipWith {α β : Type} {R : β → β → Prop} {members members' : List β} (h : List.Forall₂ R members members')
    {write write' : α → β → List UInt8} (hwrite : ∀ a m m', R m m' → Shortens (write a m) (write' a m')) (l : List α) :
    List.Forall₂ Shortens (l.zipWith write members) (l.zipWith write' members') := by
  induction h generalizing l with
  | nil =>
    rw [List.zipWith_nil_right, List.zipWith_nil_right]
    exact .nil
  | cons hm _ ih =>
    cases l with
    | nil => exact .nil
    | cons a l => exact .cons (hwrite a _ _ hm) (ih l)

namespace ClassDef

theorem hasMembers_kept (c : ClassDef) : c.kept.hasMembers = c.hasMembers := by
  have hfields := c.map_fields_kept (k := FieldDef.sig) (g := FieldDef.sig) fun _ _ => rfl
  rw [hasMembers, ← List.isEmpty_map (f := FieldDef.sig), hfields, List.isEmpty_map, methods_kept, List.isEmpty_map,
    hasMembers]

theorem isRestricted_kept (c : ClassDef) : c.kept.isRestricted = c.isRestricted := by
  rw [Bool.eq_iff_iff, isRestricted, List.any_eq_true]
  constructor
  · rintro ⟨r, hr, hsome⟩
    rwa [isSome_of_mem_restrictions_kept hr] at hsome
  · intro hrestricted
    obtain ⟨r, hr, -⟩ := List.any_eq_true.mp hrestricted
    refine ⟨c.keptHidden r, ?_, (c.isSome_keptHidden r).trans hrestricted⟩
    rw [restrictions_kept]
    exact List.mem_map_of_mem hr

end ClassDef

namespace Members

/-! ## Hidden API data -/

/-- Members that have no restrictions of their own are written as unrestricted. -/
theorem writeFlags_kept (c : ClassDef) : writeFlags c.kept = writeFlags c := by
  unfold writeFlags
  rw [c.isRestricted_kept]
  split
  · rename_i hrestricted
    rw [c.restrictions_kept, List.flatMap_map]
    refine List.flatMap_congr fun r _ => ?_
    rw [ClassDef.keptHidden, if_pos hrestricted, Option.map_some, Option.getD_some, HiddenApi.value_kept]
    cases r <;> rfl
  · rfl

theorem writeHiddenApi_kept (classes : List ClassDef) : writeHiddenApi (classes.map ClassDef.kept) = writeHiddenApi classes := by
  have hflags : (classes.map ClassDef.kept).map writeFlags = classes.map writeFlags := by
    rw [List.map_map]
    exact List.map_congr_left fun c _ => writeFlags_kept c
  simp only [writeHiddenApi, hflags, List.length_map]

/-! ## Class data -/

section pools

variable {p q : Pools} {codeOffsets codeOffsets' : Std.HashMap MethodSig Nat}

theorem leads_writeFields (h : p.fields.Alike q.fields) (type : String) {fields fields' : List FieldDef}
    (hfields : List.Forall₂ (fun f f' => f'.sig = f.sig ∧ f'.flags = f.flags) fields fields') :
    Leads Shortens (writeFields p type fields) (writeFields q type fields') := by
  have hindices : (fields'.map fun f => q.fields.indexOrNone f.sig) = fields.map fun f => p.fields.indexOrNone f.sig := by
    induction hfields with
    | nil => rfl
    | cons hf _ ih => rw [List.map_cons, List.map_cons, ih, hf.1, h.indexOrNone_eq]
  intro form hform
  obtain ⟨steps, hsteps, hform⟩ := Result.bind_eq_ok hform
  cases hform
  refine ⟨_, by rw [writeFields, hindices, hsteps]; rfl, .flatten (Shortens.zipWith hfields (fun _ f f' hf => ?_) steps)⟩
  rw [writeField, writeField, hf.2]
  exact .rfl

theorem leads_writeMethods (h : p.methods.Alike q.methods) (hcode : Below codeOffsets codeOffsets') (type : String)
    {methods methods' : List MethodDef}
    (hmethods : List.Forall₂ (fun m m' => m'.sig = m.sig ∧ m'.flags = m.flags) methods methods') :
    Leads Shortens (writeMethods p codeOffsets type methods) (writeMethods q codeOffsets' type methods') := by
  have hindices : (methods'.map fun m => q.methods.indexOrNone m.sig) =
      methods.map fun m => p.methods.indexOrNone m.sig := by
    induction hmethods with
    | nil => rfl
    | cons hm _ ih => rw [List.map_cons, List.map_cons, ih, hm.1, h.indexOrNone_eq]
  intro form hform
  obtain ⟨steps, hsteps, hform⟩ := Result.bind_eq_ok hform
  cases hform
  refine ⟨_, by rw [writeMethods, hindices, hsteps]; rfl, .flatten (Shortens.zipWith hmethods (fun _ m m' hm => ?_) steps)⟩
  rw [writeMethod, writeMethod, hm.1, hm.2]
  exact Shortens.rfl.append (.uleb128 (hcode.offsetIn_le m.sig))

/-- The class data of a class that is given back. -/
theorem leads_writeClassData (hfields : p.fields.Alike q.fields) (hmethods : p.methods.Alike q.methods)
    (hcode : Below codeOffsets codeOffsets') (c : ClassDef) :
    Leads Shortens (writeClassData p codeOffsets c) (writeClassData q codeOffsets' c.kept) := by
  have hkept (methods : List MethodDef) : List.Forall₂ (fun m m' => m'.sig = m.sig ∧ m'.flags = m.flags) methods
      (methods.map fun m => m.kept (c.keptHidden m.hidden)) :=
    List.forall₂_map_right_iff.mpr (List.forall₂_same.mpr fun m _ => ⟨m.sig_kept _, rfl⟩)
  have hstatic : List.Forall₂ (fun f f' => f'.sig = f.sig ∧ f'.flags = f.flags) c.staticFields c.kept.staticFields := by
    refine List.forall₂_iff_get.mpr ⟨List.length_mapIdx.symm, fun i hi hi' => ?_⟩
    simp only [ClassDef.kept, List.get_eq_getElem, List.getElem_mapIdx]
    exact ⟨rfl, rfl⟩
  have hinstance : List.Forall₂ (fun f f' => f'.sig = f.sig ∧ f'.flags = f.flags) c.instanceFields
      c.kept.instanceFields := List.forall₂_map_right_iff.mpr (List.forall₂_same.mpr fun _ _ => ⟨rfl, rfl⟩)
  have hcount {α : Type} {members members' : List α} (hlength : members'.length = members.length) :
      Shortens (writeCount members) (writeCount members') := by
    rw [writeCount, writeCount, hlength]
    exact .rfl
  refine (leads_writeFields hfields c.type hstatic).bind fun _ _ hstaticForm =>
    (leads_writeFields hfields c.type hinstance).bind fun _ _ hinstanceForm =>
      (leads_writeMethods hmethods hcode c.type (hkept c.directMethods)).bind fun _ _ hdirectForm =>
        (leads_writeMethods hmethods hcode c.type (hkept c.virtualMethods)).bind fun _ _ hvirtualForm => .ok ?_
  have hcounts := (((hcount hstatic.length_eq.symm).append (hcount hinstance.length_eq.symm)).append
    (hcount (hkept c.directMethods).length_eq.symm)).append (hcount (hkept c.virtualMethods).length_eq.symm)
  exact (((hcounts.append hstaticForm).append hinstanceForm).append hdirectForm).append hvirtualForm

end pools

/-! ## Annotations -/

theorem setOffset_kept_eq_zero_iff {sets sets' : SetOffsets} (hsets : Below sets sets') {annotations : List AnnotationItem}
    (h : ∀ a ∈ annotations, a.InnerArranged) :
    setOffset sets' (AnnotationItem.kept annotations) = 0 ↔ setOffset sets annotations = 0 := by
  unfold setOffset
  rw [Entry.isEmpty_kept h, Entry.setOf_kept h]
  split
  · exact Iff.rfl
  · exact (hsets.offsetIn_eq_zero_iff _).symm

section annotations

variable {c : ClassDef} (h : c.InnerArranged)

include h

theorem hasParameterAnnotations_kept {m : MethodDef} (hm : m ∈ c.methods) (hidden : Option HiddenApi) :
    hasParameterAnnotations (m.kept hidden) = hasParameterAnnotations m := by
  rw [Bool.eq_iff_iff, hasParameterAnnotations, MethodDef.kept, List.any_map, hasParameterAnnotations,
    List.any_eq_true, List.any_eq_true]
  refine exists_congr fun p => and_congr_right fun hp => ?_
  rw [← Entry.isEmpty_kept (h.parameterAnnotations m hm p hp)]
  rfl

theorem countP_fields_kept : (c.kept.fields.countP fun f => !f.annotations.isEmpty) =
    c.fields.countP fun f => !f.annotations.isEmpty := by
  have hfields := c.map_fields_kept (k := fun f => !f.annotations.isEmpty)
    (g := fun f => !(AnnotationItem.kept f.annotations).isEmpty) fun _ _ => rfl
  have hcount := congrArg (List.countP id) hfields
  rw [List.countP_map, List.countP_map] at hcount
  refine hcount.trans (List.countP_congr fun f hf => ?_)
  rw [Function.comp_apply, id, Entry.isEmpty_kept (h.fieldAnnotations f hf)]

theorem countP_methods_kept : (c.kept.methods.countP fun m => !m.annotations.isEmpty) =
    c.methods.countP fun m => !m.annotations.isEmpty := by
  rw [ClassDef.methods_kept, List.countP_map]
  refine List.countP_congr fun m hm => ?_
  rw [← Entry.isEmpty_kept (h.methodAnnotations m hm)]
  rfl

/-- The directory of a class that is given back has as many entries as before. -/
theorem directory_kept (p q : Pools) {sets sets' : SetOffsets} (hsets : Below sets sets')
    {offsets offsets' : Std.HashMap MethodSig Nat} (hoffsets : Below offsets offsets') :
    (directory q sets' offsets' c.kept).isEmpty = (directory p sets offsets c).isEmpty ∧
    (Layout.write (directory q sets' offsets' c.kept)).length = (Layout.write (directory p sets offsets c)).length := by
  have hparameters : (c.kept.methods.countP fun m => offsets'.contains m.sig) =
      c.methods.countP fun m => offsets.contains m.sig := by
    rw [ClassDef.methods_kept, List.countP_map]
    refine List.countP_congr fun m _ => ?_
    rw [Function.comp_apply, m.sig_kept, hoffsets.contains_eq]
  have hlength {entries : List (UInt32 × UInt32)} : (sortedEntries entries).length = entries.length :=
    (sortedEntries_perm entries).length_eq
  refine ⟨?_, ?_⟩
  · rw [Bool.eq_iff_iff, DirectoryItem.isEmpty_iff, DirectoryItem.isEmpty_iff]
    simp only [directory, ← List.length_eq_zero_iff, hlength, List.length_map, ← List.countP_eq_length_filter,
      countP_fields_kept h, countP_methods_kept h, hparameters]
    exact and_congr_left fun _ => setOffset_kept_eq_zero_iff hsets h.annotations
  · simp only [DirectoryItem.length_write, directory, hlength, List.length_map, ← List.countP_eq_length_filter,
      countP_fields_kept h, countP_methods_kept h, hparameters]

end annotations

end Members

end Dalvik
