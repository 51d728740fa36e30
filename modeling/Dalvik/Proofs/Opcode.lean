import Mathlib.Data.List.Nodup
import Dalvik.Opcode.Table

/-!
# Opcodes are told apart by their values

API levels fall into eras, and the levels of one era have the same opcodes
(`Opcode.existsAt_era`). At one level no two opcodes have one value
(`Opcodes.opcode?_eq`). A file is read with the opcodes of its version, which has
those that it was written with (`Opcodes.covers_ofVersion`) from
`Opcodes.firstAlike` on.
-/

namespace Dalvik

namespace Opcode

/-! ## Eras -/

/-- The last level of the era of a level, or the first one of the era that has not
ended. -/
def era (api : Int) : Int :=
  if api ≤ 20 then 20 else if api ≤ 25 then 25 else if api ≤ 27 then 27 else 28

/-- All eras. -/
def eras : List Int := [20, 25, 27, 28]

theorem era_mem (api : Int) : era api ∈ eras := by
  unfold era
  split <;> [decide; split <;> [decide; split <;> decide]]

/-- The ranges of levels that opcodes have. -/
theorem levels_mem {op : Opcode} (h : op ∈ table) : (op.firstApi, op.lastApi) ∈
    [(none, none), (none, some 20), (some 26, none), (none, some 25), (some 28, none)] := by
  revert op
  decide +kernel

theorem existsAt_era {op : Opcode} (h : op ∈ table) (api : Int) : op.existsAt (era api) = op.existsAt api := by
  have hlevels := levels_mem h
  simp only [List.mem_cons, Prod.mk.injEq, List.not_mem_nil, or_false] at hlevels
  unfold existsAt era
  rcases hlevels with ⟨h1, h2⟩ | ⟨h1, h2⟩ | ⟨h1, h2⟩ | ⟨h1, h2⟩ | ⟨h1, h2⟩ <;> rw [h1, h2] <;>
    simp only [Option.all_none, Option.all_some, Bool.true_and, Bool.and_true, decide_eq_decide] <;> omega

/-! ## Values -/

/-- The opcodes of an era are in the order of their values. -/
theorem values_ascend : ∀ api ∈ eras, ((table.filter (·.existsAt api)).map value).IsChain (· < ·) := by
  decide +kernel

/-- The value of an opcode is a byte, but for the opcodes of payloads. -/
theorem value_spec {op : Opcode} (h : op ∈ table) :
    op.value < 0x100 ∧ op.format.isPayload = false ∧ (op.value = 0 → op.format = .f10x) ∨
      op.format = .packedSwitch ∧ op.value = 0x100 ∨ op.format = .sparseSwitch ∧ op.value = 0x200 ∨
      op.format = .arrayData ∧ op.value = 0x300 := by
  revert op
  decide +kernel

/-- No two opcodes of one level have one value. -/
theorem eq_of_value_eq {a b : Opcode} (ha : a ∈ table) (hb : b ∈ table) {api : Int} (haApi : a.existsAt api = true)
    (hbApi : b.existsAt api = true) (hvalue : a.value = b.value) : a = b := by
  have hmem {op : Opcode} (h : op ∈ table) (hApi : op.existsAt api = true) :
      op ∈ table.filter (·.existsAt (era api)) :=
    List.mem_filter.mpr ⟨h, (existsAt_era h api).trans hApi⟩
  have hnodup := (List.isChain_iff_pairwise.mp (values_ascend _ (era_mem api))).imp Nat.ne_of_lt
  exact List.inj_on_of_nodup_map hnodup (hmem ha haApi) (hmem hb hbApi) hvalue

end Opcode

namespace Opcodes

open Opcode

/-- An opcode is found by its value at the levels that have it. -/
theorem opcode?_eq {o : Opcodes} {op : Opcode} (h : op ∈ table) (hApi : op.existsAt o.api = true) :
    o.opcode? op.value = some op := by
  have hfound : (o.opcode? op.value).isSome := by
    rw [opcode?, List.find?_isSome]
    exact ⟨op, h, by simp [hApi]⟩
  obtain ⟨op', hop'⟩ := Option.isSome_iff_exists.mp hfound
  have hspec := List.find?_some hop'
  simp only [Bool.and_eq_true, beq_iff_eq] at hspec
  rw [hop', eq_of_value_eq (List.mem_of_find?_eq_some hop') h hspec.2 hApi hspec.1]

/-- What is found by a value is an opcode of the level. -/
theorem mem_of_opcode? {o : Opcodes} {value : Nat} {op : Opcode} (h : o.opcode? value = some op) :
    op ∈ table ∧ (o.value? op).isSome := by
  have hspec := List.find?_some h
  rw [Bool.and_eq_true] at hspec
  exact ⟨List.mem_of_find?_eq_some h, by rw [value?, valueAt?, if_pos hspec.2, Option.isSome_some]⟩

/-- The first level has all opcodes of the second one. -/
def Covers (o' o : Opcodes) : Prop :=
  ∀ {op : Opcode}, op ∈ table → op.existsAt o.api = true → op.existsAt o'.api = true

theorem Covers.rfl {o : Opcodes} : o.Covers o := fun _ h => h

/-- From this level on a file is read with the opcodes that it was written with. -/
def firstAlike : Int := 21

theorem covers_ofVersion {o o' : Opcodes} (hfirst : firstAlike ≤ o.api) (h : ofVersion o.version = .ok o') :
    o'.Covers o := fun {op} hop hexists => by
  have hera : era o'.api = era o.api := by
    unfold firstAlike at hfirst
    unfold version at h
    unfold era
    by_cases h23 : o.api ≤ 23
    · rw [if_pos h23] at h
      cases h
      grind
    · by_cases h25 : o.api ≤ 25
      · rw [if_neg h23, if_pos h25] at h
        cases h
        grind
      · by_cases h27 : o.api ≤ 27
        · rw [if_neg h23, if_neg h25, if_pos h27] at h
          cases h
          grind
        · rw [if_neg h23, if_neg h25, if_neg h27] at h
          split at h
          · cases h
            grind [defaultApi]
          · split at h <;> cases h <;> grind
  rwa [← existsAt_era hop o'.api, hera, existsAt_era hop]

end Opcodes

end Dalvik
