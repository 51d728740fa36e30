import Mathlib.Data.List.DropRight
import Dalvik.Proofs.Class.Annotations
import Dalvik.Proofs.Code.Item

/-!
# What a file keeps of a class

`ClassDef.kept` is the class that a file gives back: annotations and handlers are in
the order of a file, the initial values of static fields are given up to the last
that is not the default, and where one member is restricted all members are. A class
that is in this form already is kept as it is (`ClassDef.Canonical.kept_eq`).
-/

namespace Dalvik

namespace HiddenApi

/-- The restrictions that a file gives back: those that their number stands for. A number
that stands for none cannot be read. -/
def kept (h : HiddenApi) : HiddenApi :=
  (ofValue h.value).toOption.getD h

@[simp] theorem value_kept (h : HiddenApi) : h.kept.value = h.value := by
  unfold kept
  cases hread : ofValue h.value with
  | ok r => exact value_of_ofValue hread
  | error e => rfl

@[simp] theorem kept_kept (h : HiddenApi) : h.kept.kept = h.kept := by
  rw [kept, value_kept]
  cases hread : ofValue h.value with
  | ok r => simp [kept, hread, Except.toOption]
  | error e => rfl

theorem Known.kept_eq {h : HiddenApi} (hknown : h.Known) : h.kept = h := by
  rw [kept, hknown.ofValue_value]
  rfl

/-- Restrictions whose number is small are kept without domains that there are not. -/
theorem known_kept {h : HiddenApi} (hlt : h.value < 32) : h.kept.Known := by
  obtain ⟨r, hread⟩ := exists_ofValue_iff.mpr hlt
  rw [kept, hread]
  exact known_of_ofValue hread

/-- What is read of the restrictions that a member is written with. -/
def reread (r : Option HiddenApi) : Result (Option HiddenApi) :=
  match r with
  | some h => (ofValue h.value).map some
  | none => .ok none

/-- Restrictions whose number is small are read as they are kept. -/
theorem reread_eq {r : Option HiddenApi} (hsmall : ∀ h ∈ r, h.value < 32) : reread r = .ok (r.map kept) := by
  cases r with
  | none => rfl
  | some h =>
    obtain ⟨r, hread⟩ := exists_ofValue_iff.mpr (hsmall h rfl)
    rw [reread, hread, Option.map_some, kept, hread]
    rfl

/-- Restrictions are read only if their number is small, and then as they are kept. -/
theorem eq_of_reread {r r' : Option HiddenApi} (h : reread r = .ok r') : (∀ h ∈ r, h.value < 32) ∧ r' = r.map kept := by
  have hsmall : ∀ h ∈ r, h.value < 32 := by
    rintro h rfl
    obtain ⟨read, hread, -⟩ := Result.map_eq_ok h
    exact exists_ofValue_iff.mp ⟨read, hread⟩
  exact ⟨hsmall, Except.ok.inj (h.symm.trans (reread_eq hsmall))⟩

end HiddenApi

/-- The parameter that a file gives back. Its name is part of the debug information of
a body. -/
def Parameter.kept (hasCode : Bool) (p : Parameter) : Parameter :=
  { p with
    name := if hasCode then p.name else none
    annotations := AnnotationItem.kept p.annotations }

/-- The field that a file gives back, with the value and the restrictions that it has
there. -/
def FieldDef.kept (value : Option Value) (hidden : Option HiddenApi) (f : FieldDef) : FieldDef :=
  { f with value, annotations := AnnotationItem.kept f.annotations, hidden }

/-- The method that a file gives back, with the restrictions that it has there. -/
def MethodDef.kept (hidden : Option HiddenApi) (m : MethodDef) : MethodDef :=
  { m with
    parameters := m.parameters.map (Parameter.kept m.code.isSome)
    annotations := AnnotationItem.kept m.annotations
    hidden
    code := m.code.map Code.kept }

/-- What a file keeps of a method has its signature. -/
theorem MethodDef.sig_kept (m : MethodDef) (hidden : Option HiddenApi) : (m.kept hidden).sig = m.sig := by
  simp [sig, kept, parameterTypes, Parameter.kept]

namespace ClassDef

/-- The restrictions that a file gives a member: none if no member of the class is
restricted. -/
def keptHidden (c : ClassDef) (hidden : Option HiddenApi) : Option HiddenApi :=
  if c.isRestricted then some (hidden.getD .unrestricted).kept else none

/-- The initial value that a file gives the static field at a place. -/
def keptValue (c : ClassDef) (place : Nat) : Option Value :=
  c.staticValues[place]?.map Value.arranged

/-- The class that a file gives back. -/
def kept (c : ClassDef) : ClassDef :=
  { c with
    annotations := AnnotationItem.kept c.annotations
    staticFields := c.staticFields.mapIdx fun i f => f.kept (c.keptValue i) (c.keptHidden f.hidden)
    instanceFields := c.instanceFields.map fun f => f.kept none (c.keptHidden f.hidden)
    directMethods := c.directMethods.map fun m => m.kept (c.keptHidden m.hidden)
    virtualMethods := c.virtualMethods.map fun m => m.kept (c.keptHidden m.hidden) }

/-- What the readers demand of a class: its members have small flags and restrictions, and its
bodies can be read. -/
structure Readable (c : ClassDef) : Prop where
  fieldFlags : ∀ f ∈ c.fields, f.flags.bits.toNat < extentBound
  methodFlags : ∀ m ∈ c.methods, m.flags.bits.toNat < extentBound
  restrictions : ∀ r ∈ c.restrictions, ∀ h ∈ r, h.value < 32
  code : ∀ m ∈ c.methods, ∀ code ∈ m.code, code.Readable

/-- A class in the form in which a file gives it back. -/
structure Canonical (c : ClassDef) : Prop where
  annotations : AnnotationItem.Canonical c.annotations
  fieldAnnotations : ∀ f ∈ c.fields, AnnotationItem.Canonical f.annotations
  methodAnnotations : ∀ m ∈ c.methods, AnnotationItem.Canonical m.annotations
  parameterAnnotations : ∀ m ∈ c.methods, ∀ p ∈ m.parameters, AnnotationItem.Canonical p.annotations
  /-- Only methods with a body name their parameters. -/
  parameterNames : ∀ m ∈ c.methods, m.code = none → ∀ p ∈ m.parameters, p.name = none
  code : ∀ m ∈ c.methods, ∀ code ∈ m.code, code.Canonical
  /-- Exactly the static fields up to the last whose value is not the default give
  their values. -/
  staticValues : ∀ i f, c.staticFields[i]? = some f → (f.value.isSome ↔ i < c.staticValues.length)
  values : ∀ f ∈ c.staticFields, ∀ v ∈ f.value, v.arranged = v
  instanceValues : ∀ f ∈ c.instanceFields, f.value = none
  /-- All members are restricted or none is. -/
  hidden : (∀ r ∈ c.restrictions, r.isSome) ∨ ∀ r ∈ c.restrictions, r = none
  /-- Members belong to no other domains than there are. -/
  domains : ∀ r ∈ c.restrictions, ∀ h ∈ r, h.Known

/-- The restrictions that a file gives are kept as they are. -/
theorem map_kept_keptHidden (c : ClassDef) (r : Option HiddenApi) :
    (c.keptHidden r).map HiddenApi.kept = c.keptHidden r := by
  unfold keptHidden
  split
  · rw [Option.map_some, HiddenApi.kept_kept]
  · rfl

/-- The numbers of the restrictions that a file gives are as small as those of the class. -/
theorem value_keptHidden_lt {c : ClassDef} {r : Option HiddenApi} (hsmall : ∀ h ∈ r, h.value < 32) :
    ∀ h ∈ c.keptHidden r, h.value < 32 := by
  unfold keptHidden
  split
  · rintro _ ⟨⟩
    rw [HiddenApi.value_kept]
    cases r with
    | none => exact (by decide : HiddenApi.unrestricted.value < 32)
    | some h => exact hsmall h rfl
  · intro h hmem
    cases hmem

theorem reread_keptHidden {c : ClassDef} {r : Option HiddenApi} (hsmall : ∀ h ∈ r, h.value < 32) :
    HiddenApi.reread (c.keptHidden r) = .ok (c.keptHidden r) := by
  rw [HiddenApi.reread_eq (value_keptHidden_lt hsmall), map_kept_keptHidden]

/-- Restrictions of a class that are read as a file gives them have small numbers. -/
theorem value_lt_of_reread {c : ClassDef} {r r' : Option HiddenApi} (hr : r ∈ c.restrictions)
    (h : HiddenApi.reread (c.keptHidden r) = .ok r') : ∀ h ∈ r, h.value < 32 := by
  rintro restrictions rfl
  have hrestricted : c.isRestricted = true := List.any_eq_true.mpr ⟨_, hr, rfl⟩
  rw [keptHidden, if_pos hrestricted] at h
  rw [← restrictions.value_kept]
  exact (HiddenApi.eq_of_reread h).1 _ rfl

theorem staticValues_prefix (c : ClassDef) : c.staticValues <+: c.staticFields.map FieldDef.initialValue :=
  List.rdropWhile_prefix Value.isDefault _

/-- A file gives the initial values that are there up to the last that is not the default. -/
theorem keptValue_eq_ite (c : ClassDef) {i : Nat} {f : FieldDef} (hf : c.staticFields[i]? = some f) :
    c.keptValue i = if i < c.staticValues.length then some f.initialValue.arranged else none := by
  rw [keptValue]
  split
  · rename_i hlt
    have hplace := List.prefix_iff_getElem?.mp c.staticValues_prefix i hlt
    rw [List.getElem?_map, hf, Option.map_some] at hplace
    rw [List.getElem?_eq_getElem hlt, ← hplace, Option.map_some]
  · rw [List.getElem?_eq_none (Nat.not_lt.mp ‹_›), Option.map_none]

namespace Canonical

variable {c : ClassDef} (h : c.Canonical)

include h

theorem keptHidden_eq {r : Option HiddenApi} (hr : r ∈ c.restrictions) : c.keptHidden r = r := by
  rcases h.hidden with hall | hnone
  · obtain ⟨restrictions, rfl⟩ := Option.isSome_iff_exists.mp (hall r hr)
    have hrestricted : c.isRestricted = true := List.any_eq_true.mpr ⟨_, hr, rfl⟩
    rw [keptHidden, if_pos hrestricted, Option.getD_some, (h.domains _ hr _ rfl).kept_eq]
  · rw [keptHidden, if_neg, hnone r hr]
    rw [isRestricted, List.any_eq_true]
    rintro ⟨r', hr', hsome⟩
    rw [hnone r' hr'] at hsome
    cases hsome

theorem keptHidden_field {f : FieldDef} (hf : f ∈ c.fields) : c.keptHidden f.hidden = f.hidden :=
  h.keptHidden_eq (List.mem_append_left _ (List.mem_map_of_mem hf))

theorem keptHidden_method {m : MethodDef} (hm : m ∈ c.methods) : c.keptHidden m.hidden = m.hidden :=
  h.keptHidden_eq (List.mem_append_right _ (List.mem_map_of_mem hm))

theorem keptValue_eq {i : Nat} {f : FieldDef} (hf : c.staticFields[i]? = some f) : c.keptValue i = f.value := by
  have hiff := h.staticValues i f hf
  rw [c.keptValue_eq_ite hf]
  cases hvalue : f.value with
  | none =>
    rw [hvalue] at hiff
    rw [if_neg fun hlt => Bool.false_ne_true (hiff.mpr hlt)]
  | some v =>
    rw [hvalue] at hiff
    have hinitial : f.initialValue = v := by rw [FieldDef.initialValue, hvalue, Option.getD_some]
    rw [if_pos (hiff.mp rfl), hinitial, h.values f (List.mem_of_getElem? hf) v hvalue]

theorem field_kept_eq {f : FieldDef} (hf : f ∈ c.fields) : f.kept f.value (c.keptHidden f.hidden) = f := by
  rw [FieldDef.kept, h.keptHidden_field hf, (h.fieldAnnotations f hf).kept_eq]

theorem method_kept_eq {m : MethodDef} (hm : m ∈ c.methods) : m.kept (c.keptHidden m.hidden) = m := by
  have hparameters : m.parameters.map (Parameter.kept m.code.isSome) = m.parameters := by
    refine map_eq_self fun p hp => ?_
    rw [Parameter.kept, (h.parameterAnnotations m hm p hp).kept_eq]
    cases hcode : m.code with
    | none =>
      have hname := h.parameterNames m hm hcode p hp
      rw [Option.isSome_none, if_neg Bool.false_ne_true, ← hname]
    | some code => rfl
  have hcode : m.code.map Code.kept = m.code := by
    cases hcode : m.code with
    | none => rfl
    | some code => rw [Option.map_some, (h.code m hm code hcode).kept_eq]
  rw [MethodDef.kept, h.keptHidden_method hm, (h.methodAnnotations m hm).kept_eq, hparameters, hcode]

/-- A class in the form of a file is kept as it is. -/
theorem kept_eq : c.kept = c := by
  have hstatic : (c.staticFields.mapIdx fun i f => f.kept (c.keptValue i) (c.keptHidden f.hidden)) =
      c.staticFields := by
    refine List.ext_getElem? fun i => ?_
    rw [List.getElem?_mapIdx]
    cases hf : c.staticFields[i]? with
    | none => rfl
    | some f =>
      rw [Option.map_some, h.keptValue_eq hf, h.field_kept_eq (List.mem_append_left _ (List.mem_of_getElem? hf))]
  have hinstance : (c.instanceFields.map fun f => f.kept none (c.keptHidden f.hidden)) = c.instanceFields := by
    refine map_eq_self fun f hf => ?_
    rw [← h.instanceValues f hf]
    exact h.field_kept_eq (List.mem_append_right _ hf)
  have hdirect : (c.directMethods.map fun m => m.kept (c.keptHidden m.hidden)) = c.directMethods :=
    map_eq_self fun m hm => h.method_kept_eq (List.mem_append_left _ hm)
  have hvirtual : (c.virtualMethods.map fun m => m.kept (c.keptHidden m.hidden)) = c.virtualMethods :=
    map_eq_self fun m hm => h.method_kept_eq (List.mem_append_right _ hm)
  rw [kept, hstatic, hinstance, hdirect, hvirtual, h.annotations.kept_eq]

end Canonical

end ClassDef

end Dalvik
