import Dalvik.Proofs.Instruction.Operands
import Dalvik.Proofs.Instruction.Slots

/-!
# Mapping the references of instructions there and back

`Instruction.mapReferences_map`: what was mapped slot by slot is mapped on slot by slot.
A function that undoes the first one at every slot maps it back.
-/

namespace Dalvik.Instruction

open Result

variable {ρ σ : Type}

/-- The same instruction with the elements of an array as their low bytes give
them. -/
def extended (i : Instruction ρ) : Instruction ρ :=
  ⟨i.opcode, i.operands.extended⟩

/-- The same instruction with what `f` makes of each reference. -/
def map {τ : Type} (f : ρ → τ) (i : Instruction ρ) : Instruction τ :=
  i.mapReferences (m := Id) fun _ r => f r

theorem map_eq {τ : Type} (f : ρ → τ) (i : Instruction ρ) : i.map f = i.refilled (i.slots.map fun slot => f slot.2) := by
  have hslots : (i.slots.mapM fun slot => (pure (f slot.2) : Id τ)) = pure (i.slots.map fun slot => f slot.2) :=
    List.mapM_pure
  show i.mapReferences (m := Id) _ = _
  rw [mapReferences_eq]
  exact congrArg (i.refilled <$> ·) hslots

theorem map_eq_self {f : ρ → ρ} {i : Instruction ρ} (h : ∀ slot ∈ i.slots, f slot.2 = slot.2) : i.map f = i := by
  rw [map_eq, List.map_congr_left h]
  exact i.refilled_references

theorem extended_map {τ : Type} (f : ρ → τ) (i : Instruction ρ) : (i.map f).extended = i.extended.map f := by
  obtain ⟨opcode, operands⟩ := i
  cases operands <;> rfl

theorem map_map {τ : Type} (f : ρ → σ) (g : σ → τ) (i : Instruction ρ) : (i.map f).map g = i.map (g ∘ f) := by
  obtain ⟨opcode, operands⟩ := i
  cases operands <;> rfl

theorem references_map (f : ρ → σ) (i : Instruction ρ) : (i.map f).references = i.references.map f := by
  obtain ⟨opcode, operands⟩ := i
  cases operands <;> rfl

/-- What follows another function at the slots of an instruction maps the references on
as both together do. -/
theorem mapReferences_map {τ : Type} {f : ReferenceKind → ρ → Result σ} {g : ReferenceKind → σ → Result τ} {h : ρ → τ}
    {i : Instruction ρ} {j : Instruction σ} (hmap : i.mapReferences f = .ok j)
    (hboth : ∀ slot ∈ i.slots, ∀ s, f slot.1 slot.2 = .ok s → g slot.1 s = .ok (h slot.2)) :
    j.mapReferences g = .ok (i.map h) := by
  have hf := exists_of_mapReferences hmap
  have htogether : ∀ slot ∈ i.slots, f slot.1 slot.2 >>= g slot.1 = .ok (h slot.2) := fun slot hslot => by
    obtain ⟨s, hs⟩ := hf slot hslot
    rw [hs, ok_bind, hboth slot hslot s hs]
  have hbind : (i.mapReferences f >>= fun j => j.mapReferences g) = _ := mapReferences_bind hf
  rw [hmap, ok_bind] at hbind
  rw [hbind, mapReferences_eq, mapM_ok htogether, map_eq]
  rfl

/-- Mapping the references changes nothing else. -/
theorem mapReferences_eq_ok {f : ReferenceKind → ρ → Result σ} {i : Instruction ρ} {j : Instruction σ}
    (h : i.mapReferences f = .ok j) :
    j.opcode = i.opcode ∧ j.codeUnits = i.codeUnits ∧ j.operands.elementCount = i.operands.elementCount ∧
      i.extended.mapReferences f = .ok j.extended := by
  obtain ⟨opcode, operands⟩ := i
  cases operands with
  | f20bc | f21c | f22c | f31c | f35c | f3rc =>
    obtain ⟨s, hs, h'⟩ := bind_eq_ok h
    cases h'
    exact ⟨rfl, rfl, rfl, h⟩
  | f45cc | f4rcc =>
    obtain ⟨s, hs, h'⟩ := bind_eq_ok h
    obtain ⟨p, hp, h'⟩ := bind_eq_ok h'
    cases h'
    exact ⟨rfl, rfl, rfl, h⟩
  | _ =>
    cases h
    exact ⟨rfl, rfl, by simp [Operands.elementCount], rfl⟩

theorem slots_extended (i : Instruction ρ) : i.extended.slots = i.slots := by
  obtain ⟨opcode, operands⟩ := i
  cases operands <;> rfl

end Dalvik.Instruction
