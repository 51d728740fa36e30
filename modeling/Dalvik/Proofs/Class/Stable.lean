import Dalvik.Proofs.Class.Limits
import Dalvik.Proofs.Instruction.Decoded

/-!
# What a file keeps is kept as it is

Where the annotations inside of constants have their elements in order, a class that a
file has given back is in the form of a file (`ClassDef.InnerArranged.canonical_kept`): its
annotations, handlers and array elements have been put in order, its initial values
trimmed and filled, and its restrictions spread over all members, and doing so again
changes nothing.
-/

namespace Dalvik

/-! ## Annotations -/

namespace AnnotationItem

/-- The annotations inside of the values of an annotation have their elements in
order. -/
def InnerArranged (a : AnnotationItem) : Prop :=
  ∀ e ∈ a.elements, e.2.arranged = e.2

theorem InnerArranged.arranged {a : AnnotationItem} (h : a.InnerArranged) : a.arranged.InnerArranged :=
  fun e he => h e (List.mem_mergeSort.mp he)

theorem InnerArranged.arrangedWithin_eq {a : AnnotationItem} (h : a.InnerArranged) : a.arrangedWithin = a.arranged := by
  have helements : Value.arrangedElements a.elements = a.elements := by
    rw [Value.arrangedElements_eq]
    refine map_eq_self fun e he => ?_
    exact Prod.ext rfl (h e he)
  rw [arrangedWithin, helements]
  rfl

variable {annotations : List AnnotationItem} (h : ∀ a ∈ annotations, a.InnerArranged)

include h

theorem kept_eq_inFileOrder : kept annotations = inFileOrder annotations := by
  refine map_eq_self fun a ha => ?_
  obtain ⟨original, horiginal, rfl⟩ := List.mem_map.mp (mem_inFileOrder.mp ha)
  exact (h original horiginal).arranged.arrangedWithin_eq.trans original.arranged_arranged

theorem mem_kept {a : AnnotationItem} : a ∈ kept annotations ↔ a ∈ annotations.map AnnotationItem.arranged := by
  rw [kept_eq_inFileOrder h, mem_inFileOrder]

/-- What a file keeps of a set of annotations is in the form of a file. -/
theorem canonical_kept : Canonical (kept annotations) where
  arranged a ha := by
    obtain ⟨original, horiginal, rfl⟩ := List.mem_map.mp ((mem_kept h).mp ha)
    exact (h original horiginal).arranged.arrangedWithin_eq.trans original.arranged_arranged
  ascending := by
    rw [kept_eq_inFileOrder h]
    exact inFileOrder_pairwise annotations

end AnnotationItem

/-! ## Bodies -/

theorem Operands.signExtended_signExtended (width : UInt16) (e : Int64) :
    signExtended width (signExtended width e) = signExtended width e := by
  rcases Nat.lt_or_ge 8 width.toNat with hlt | hle
  · have hbound : byteBound 9 ≤ byteBound width.toNat := Read.byteBound_le hlt
    have hnine : byteBound 9 = 2 ^ 72 := rfl
    have hge := e.le_toInt
    have hmax := e.toInt_lt
    have hwide : signExtended width e = e := by
      rw [signExtended, Int.bmod_eq_of_le (by omega) (by omega), Int64.ofInt_toInt]
    rw [hwide, hwide]
  · have hlow := toInt_low hle e.toInt
    unfold signExtended
    rw [hlow, Int.bmod_bmod]

theorem Instruction.extended_extended {ρ : Type} (i : Instruction ρ) : i.extended.extended = i.extended := by
  obtain ⟨opcode, operands⟩ := i
  cases operands with
  | arrayData width elements =>
    have helements : (elements.map (Operands.signExtended width)).map (Operands.signExtended width) =
        elements.map (Operands.signExtended width) := by
      rw [List.map_map]
      exact List.map_congr_left fun e _ => Operands.signExtended_signExtended width e
    exact congrArg (fun es => Instruction.mk opcode (.arrayData width es)) helements
  | _ => rfl

theorem Handler.inOrder_perm (handlers : List Handler) : (inOrder handlers).Perm handlers := by
  have hperm := List.filter_append_perm (fun h : Handler => h.type.isSome) handlers
  simp only [Option.not_isSome] at hperm
  exact hperm

@[simp] theorem Handler.filter_isSome_inOrder (handlers : List Handler) :
    (inOrder handlers).filter (·.type.isSome) = handlers.filter (·.type.isSome) := by
  have hnone : handlers.filter (fun h => h.type.isSome && h.type.isNone) = [] :=
    List.filter_eq_nil_iff.mpr fun h _ => by cases h.type <;> simp
  rw [inOrder, List.filter_append, List.filter_filter, List.filter_filter, hnone]
  simp only [Bool.and_self, List.append_nil]

@[simp] theorem Handler.filter_isNone_inOrder (handlers : List Handler) :
    (inOrder handlers).filter (·.type.isNone) = handlers.filter (·.type.isNone) := by
  have hnone : handlers.filter (fun h => h.type.isNone && h.type.isSome) = [] :=
    List.filter_eq_nil_iff.mpr fun h _ => by cases h.type <;> simp
  rw [inOrder, List.filter_append, List.filter_filter, List.filter_filter, hnone]
  simp only [Bool.and_self, List.nil_append]

theorem TryBlock.inOrder_inOrder (t : TryBlock) : t.inOrder.inOrder = t.inOrder := by
  have hhandlers : Handler.inOrder (Handler.inOrder t.handlers) = Handler.inOrder t.handlers := by
    rw [Handler.inOrder, Handler.filter_isSome_inOrder, Handler.filter_isNone_inOrder, ← Handler.inOrder]
  exact congrArg (TryBlock.mk t.start t.count) hhandlers

namespace Code

/-- What a file keeps of a body is in the form of a file. -/
theorem canonical_kept (c : Code) : c.kept.Canonical where
  elements := List.forall_mem_map.mpr fun i _ => i.extended_extended
  handlers := List.forall_mem_map.mpr fun t _ => t.inOrder_inOrder

theorem Readable.kept {c : Code} (h : c.Readable) : c.kept.Readable where
  instructions := List.forall_mem_map.mpr fun i hi => by
    refine ⟨(h.instructions i hi).opcode_mem, ?_⟩
    rw [Instruction.slots_extended]
    exact (h.instructions i hi).references
  tries := List.forall_mem_map.mpr fun t ht => by
    have hperm := Handler.inOrder_perm t.handlers
    refine ⟨(h.tries t ht).start_lt, fun hnil => (h.tries t ht).handlers_ne_nil ?_, fun handler hhandler => ?_⟩
    · have hnil : Handler.inOrder t.handlers = [] := hnil
      rw [hnil] at hperm
      exact hperm.nil_eq.symm
    · exact (h.tries t ht).address_lt handler (hperm.mem_iff.mp hhandler)
  debug := h.debug
  line_lt := h.line_lt

end Code

/-! ## Initial values -/

theorem Value.isDefault_defaultFor (descriptor : String) : (defaultFor descriptor).isDefault = true := by
  unfold defaultFor
  split <;> rfl

theorem Value.arranged_defaultFor (descriptor : String) : (defaultFor descriptor).arranged = defaultFor descriptor := by
  unfold defaultFor
  split <;> rfl

/-- Defaults at the end of a list of initial values are left out. -/
theorem rdropWhile_append {α : Type} {p : α → Bool} {l defaults : List α} (h : ∀ a ∈ defaults, p a = true) :
    (l ++ defaults).rdropWhile p = l.rdropWhile p := by
  rw [List.rdropWhile, List.reverse_append, List.dropWhile_append_of_pos fun a ha => h a (List.mem_reverse.mp ha),
    ← List.rdropWhile]

theorem Instruction.references_extended {ρ : Type} (i : Instruction ρ) : i.extended.references = i.references := by
  obtain ⟨opcode, operands⟩ := i
  cases operands <;> rfl

theorem MethodDef.sortKey_kept (m : MethodDef) (hidden : Option HiddenApi) : (m.kept hidden).sortKey = m.sortKey := by
  have htypes : (m.kept hidden).parameterTypes = m.parameterTypes := by
    rw [parameterTypes, kept, List.map_map]
    rfl
  rw [sortKey, sortKey, htypes]
  rfl

namespace ClassDef

/-- The annotations inside of the constants of a class have their elements in order. -/
structure InnerArranged (c : ClassDef) : Prop where
  annotations : ∀ a ∈ c.annotations, a.InnerArranged
  fieldAnnotations : ∀ f ∈ c.fields, ∀ a ∈ f.annotations, a.InnerArranged
  methodAnnotations : ∀ m ∈ c.methods, ∀ a ∈ m.annotations, a.InnerArranged
  parameterAnnotations : ∀ m ∈ c.methods, ∀ p ∈ m.parameters, ∀ a ∈ p.annotations, a.InnerArranged
  values : ∀ f ∈ c.staticFields, ∀ v ∈ f.value, v.arranged = v
  references : c.ReferencesArranged

theorem staticValues_eq_rdropWhile (c : ClassDef) :
    c.staticValues = (c.staticFields.map FieldDef.initialValue).rdropWhile Value.isDefault :=
  rfl

theorem length_staticValues_le (c : ClassDef) : c.staticValues.length ≤ c.staticFields.length := by
  have hle := c.staticValues_prefix.length_le
  rwa [List.length_map] at hle

/-! ## Members -/

section members

variable {β : Type} {k g : FieldDef → β} (c : ClassDef)
  (h : ∀ f value, k (f.kept value (c.keptHidden f.hidden)) = g f)

include h

theorem map_staticFields_kept : c.kept.staticFields.map k = c.staticFields.map g := by
  refine List.ext_getElem? fun i => ?_
  rw [List.getElem?_map, List.getElem?_map, kept, List.getElem?_mapIdx, Option.map_map]
  exact congrArg (Option.map · _) (funext fun f => h f _)

/-- What does not depend on the initial values is kept of each field. -/
theorem map_fields_kept : c.kept.fields.map k = c.fields.map g := by
  have hinstance : c.kept.instanceFields.map k = c.instanceFields.map g := by
    rw [kept, List.map_map]
    exact List.map_congr_left fun f _ => h f _
  rw [fields, fields, List.map_append, List.map_append, c.map_staticFields_kept h, hinstance]

end members

theorem exists_of_mem_fields_kept {c : ClassDef} {f' : FieldDef} (h : f' ∈ c.kept.fields) :
    ∃ f ∈ c.fields, ∃ value, f' = f.kept value (c.keptHidden f.hidden) := by
  rcases List.mem_append.mp h with h | h
  · obtain ⟨i, hi, rfl⟩ := List.mem_mapIdx.mp h
    exact ⟨_, List.mem_append_left _ (List.getElem_mem hi), _, rfl⟩
  · obtain ⟨f, hf, rfl⟩ := List.mem_map.mp h
    exact ⟨f, List.mem_append_right _ hf, _, rfl⟩

theorem methods_kept (c : ClassDef) : c.kept.methods = c.methods.map fun m => m.kept (c.keptHidden m.hidden) :=
  List.map_append.symm

theorem forall_mem_methods_kept {c : ClassDef} {P : MethodDef → Prop}
    (h : ∀ m ∈ c.methods, P (m.kept (c.keptHidden m.hidden))) : ∀ m ∈ c.kept.methods, P m := by
  rw [methods_kept]
  exact List.forall_mem_map.mpr h

theorem isSome_keptHidden (c : ClassDef) (hidden : Option HiddenApi) :
    (c.keptHidden hidden).isSome = c.isRestricted := by
  unfold keptHidden
  split
  · rename_i hrestricted
    exact hrestricted.symm
  · rename_i hrestricted
    exact (Bool.eq_false_iff.mpr hrestricted).symm

theorem restrictions_kept (c : ClassDef) : c.kept.restrictions = c.restrictions.map c.keptHidden := by
  have hfields := c.map_fields_kept (k := (·.hidden)) (g := fun f => c.keptHidden f.hidden) fun _ _ => rfl
  rw [restrictions, hfields, methods_kept, restrictions, List.map_append, List.map_map, List.map_map, List.map_map]
  rfl

/-- All members that a file gives back are restricted if one was. -/
theorem isSome_of_mem_restrictions_kept {c : ClassDef} {r : Option HiddenApi} (hr : r ∈ c.kept.restrictions) :
    r.isSome = c.isRestricted := by
  rw [restrictions_kept] at hr
  obtain ⟨hidden, -, rfl⟩ := List.mem_map.mp hr
  exact c.isSome_keptHidden hidden

namespace InnerArranged

variable {c : ClassDef} (h : c.InnerArranged)

include h

theorem arranged_of_mem_staticValues {v : Value} (hv : v ∈ c.staticValues) : v.arranged = v := by
  obtain ⟨f, hf, rfl⟩ := List.mem_map.mp (c.staticValues_prefix.subset hv)
  unfold FieldDef.initialValue
  cases hvalue : f.value with
  | none => exact Value.arranged_defaultFor f.type
  | some v => exact h.values f hf v hvalue

theorem keptValue_eq_getElem? (place : Nat) : c.keptValue place = c.staticValues[place]? := by
  unfold keptValue
  cases hv : c.staticValues[place]? with
  | none => rfl
  | some v => exact congrArg some (h.arranged_of_mem_staticValues (List.mem_of_getElem? hv))

/-- The initial values that a file gives back, filled up with defaults, are those that
it was written with. -/
theorem initialValues_kept : c.kept.staticFields.map FieldDef.initialValue =
    c.staticValues ++ (c.staticFields.drop c.staticValues.length).map fun f => Value.defaultFor f.type := by
  have hlength := c.length_staticValues_le
  refine List.ext_getElem? fun i => ?_
  rw [List.getElem?_map, kept, List.getElem?_mapIdx, Option.map_map]
  rcases Nat.lt_or_ge i c.staticValues.length with hlt | hge
  · rw [List.getElem?_append_left hlt, List.getElem?_eq_getElem (Nat.lt_of_lt_of_le hlt hlength), Option.map_some,
      Function.comp_apply, FieldDef.initialValue, FieldDef.kept, h.keptValue_eq_getElem?, List.getElem?_eq_getElem hlt]
    rfl
  · rw [List.getElem?_append_right hge, List.getElem?_map, List.getElem?_drop, Nat.add_sub_cancel' hge]
    refine congrArg (Option.map · _) (funext fun f => ?_)
    rw [Function.comp_apply, FieldDef.initialValue, FieldDef.kept, h.keptValue_eq_getElem?, List.getElem?_eq_none hge]
    rfl

theorem staticValues_kept : c.kept.staticValues = c.staticValues := by
  have hdefaults : ∀ v ∈ (c.staticFields.drop c.staticValues.length).map fun f => Value.defaultFor f.type,
      v.isDefault = true := List.forall_mem_map.mpr fun f _ => Value.isDefault_defaultFor f.type
  rw [staticValues_eq_rdropWhile, h.initialValues_kept, rdropWhile_append hdefaults]
  rw [staticValues_eq_rdropWhile, List.rdropWhile_idempotent]

/-- What a file keeps of a class is in the form of a file. -/
theorem canonical_kept (hsmall : ∀ r ∈ c.restrictions, ∀ h ∈ r, h.value < 32) : c.kept.Canonical where
  annotations := AnnotationItem.canonical_kept h.annotations
  fieldAnnotations f' hf' := by
    obtain ⟨f, hf, value, rfl⟩ := exists_of_mem_fields_kept hf'
    exact AnnotationItem.canonical_kept (h.fieldAnnotations f hf)
  methodAnnotations := forall_mem_methods_kept fun m hm => AnnotationItem.canonical_kept (h.methodAnnotations m hm)
  parameterAnnotations := forall_mem_methods_kept fun m hm =>
    List.forall_mem_map.mpr fun p hp => AnnotationItem.canonical_kept (h.parameterAnnotations m hm p hp)
  parameterNames := forall_mem_methods_kept fun m _ hnone => List.forall_mem_map.mpr fun p _ => by
    have hcode : m.code.isSome = false := by
      rw [Option.isSome_eq_false_iff, Option.isNone_iff_eq_none]
      exact Option.map_eq_none_iff.mp hnone
    rw [Parameter.kept, hcode]
    rfl
  code := forall_mem_methods_kept fun m _ code hcode => by
    obtain ⟨original, -, rfl⟩ := Option.map_eq_some_iff.mp hcode
    exact original.canonical_kept
  staticValues i f' hf' := by
    rw [kept, List.getElem?_mapIdx, Option.map_eq_some_iff] at hf'
    obtain ⟨f, -, rfl⟩ := hf'
    rw [h.staticValues_kept, FieldDef.kept, h.keptValue_eq_getElem?]
    simp
  values f' hf' v hv := by
    obtain ⟨i, hi, rfl⟩ := List.mem_mapIdx.mp hf'
    have hv : c.keptValue i = some v := hv
    rw [h.keptValue_eq_getElem?] at hv
    exact h.arranged_of_mem_staticValues (List.mem_of_getElem? hv)
  instanceValues := List.forall_mem_map.mpr fun f _ => rfl
  hidden := by
    cases hrestricted : c.isRestricted with
    | true => exact .inl fun r hr => (isSome_of_mem_restrictions_kept hr).trans hrestricted
    | false =>
      refine .inr fun r hr => ?_
      rw [← Option.isNone_iff_eq_none, ← Option.isSome_eq_false_iff]
      exact (isSome_of_mem_restrictions_kept hr).trans hrestricted
  domains r' hr' h hh := by
    rw [restrictions_kept] at hr'
    obtain ⟨r, hr, rfl⟩ := List.mem_map.mp hr'
    have hkept := c.map_kept_keptHidden r
    rw [Option.mem_def.mp hh, Option.map_some] at hkept
    exact Option.some.inj hkept ▸ HiddenApi.known_kept (value_keptHidden_lt (hsmall r hr) h hh)

end InnerArranged

/-! ## What the form of a file leaves alone -/

variable {c : ClassDef}

theorem Distinct.kept (h : c.Distinct) : c.kept.Distinct where
  definingClass_of_field f' hf' := by
    obtain ⟨f, hf, value, rfl⟩ := exists_of_mem_fields_kept hf'
    exact h.definingClass_of_field f hf
  definingClass_of_method := forall_mem_methods_kept fun m hm => h.definingClass_of_method m hm
  fields := by
    rw [c.map_fields_kept (g := FieldDef.sig) fun _ _ => rfl]
    exact h.fields
  methods := by
    rw [methods_kept, List.map_map]
    refine (List.map_congr_left fun m _ => ?_) ▸ h.methods
    exact (m.sig_kept _).symm

theorem Readable.kept (h : c.Readable) : c.kept.Readable where
  fieldFlags f' hf' := by
    obtain ⟨f, hf, value, rfl⟩ := exists_of_mem_fields_kept hf'
    exact h.fieldFlags f hf
  methodFlags := forall_mem_methods_kept fun m hm => h.methodFlags m hm
  restrictions := by
    rw [restrictions_kept]
    exact List.forall_mem_map.mpr fun r hr => value_keptHidden_lt (h.restrictions r hr)
  code := forall_mem_methods_kept fun m hm code hcode => by
    obtain ⟨original, horiginal, rfl⟩ := Option.map_eq_some_iff.mp hcode
    exact (h.code m hm original horiginal).kept

/-- Members that are in order are given back in order. -/
theorem Sorted.kept (h : c.Sorted) : c.kept.Sorted where
  staticFields := by
    have hkeys := c.map_staticFields_kept (g := FieldDef.sortKey) (k := FieldDef.sortKey) fun _ _ => rfl
    have hsorted := List.pairwise_map (R := fun a b => (SortKey.compare a b).isLE = true).mpr h.staticFields
    rw [← hkeys] at hsorted
    exact List.pairwise_map.mp hsorted
  instanceFields := List.pairwise_map.mpr h.instanceFields
  directMethods := List.pairwise_map.mpr (h.directMethods.imp fun {m n} hle => by
    simpa only [MethodDef.sortKey_kept] using hle)
  virtualMethods := List.pairwise_map.mpr (h.virtualMethods.imp fun {m n} hle => by
    simpa only [MethodDef.sortKey_kept] using hle)

end ClassDef

end Dalvik
