import Dalvik.Instruction.Parts
import Dalvik.Proofs.Outcome

/-!
# References are replaced slot by slot

Whatever is done for the references of an instruction is done for its slots, one after
the other and for nothing else, and the results are put back into the slots
(`Instruction.mapReferences_eq`). An instruction with other references in its slots is
otherwise the same (`Instruction.Refills`).
-/

namespace Dalvik

variable {ρ σ τ : Type}

/-- The same parts with other references. -/
def Parts.refilled (p : Parts ρ) (references : List σ) : Parts σ :=
  { p with reference := references[0]?, proto := references[1]? }

/-- The parts that are no references. -/
def Parts.bare (p : Parts ρ) : Parts Empty :=
  p.refilled []

namespace Instruction

open Result

/-- The same instruction with other references in its slots. -/
def refilled (i : Instruction ρ) (references : List σ) : Instruction σ :=
  ⟨i.opcode, (Operands.ofParts? i.format (i.operands.parts.refilled references)).getD .f10x⟩

/-- The references are replaced slot by slot. -/
theorem mapReferences_eq {m : Type → Type} [Monad m] [LawfulMonad m] (i : Instruction ρ)
    (f : ReferenceKind → ρ → m σ) :
    i.mapReferences f = i.refilled <$> i.slots.mapM fun slot => f slot.1 slot.2 := by
  obtain ⟨opcode, operands⟩ := i
  cases operands with
  | f20bc | f21c | f22c | f31c | f35c | f3rc | f45cc | f4rcc =>
    simp only [mapReferences, slots, List.mapM_cons, List.mapM_nil, pure_bind, map_eq_pure_bind, bind_assoc]
    rfl
  | _ =>
    simp only [mapReferences, slots, List.mapM_nil, map_pure]
    rfl

/-- The instruction `j` has the given references in its slots and is otherwise the same
as `i`. -/
structure Refills (i : Instruction ρ) (references : List σ) (j : Instruction σ) : Prop where
  slots : j.slots = (i.slots.map Prod.fst).zip references
  opcode : j.opcode = i.opcode
  format : j.format = i.format
  codeUnits : j.codeUnits = i.codeUnits
  offset? : j.offset? = i.offset?
  /-- All other operands are the same. -/
  parts : j.operands.parts.bare = i.operands.parts.bare

theorem refills_refilled {i : Instruction ρ} {references : List σ} (h : references.length = i.slots.length) :
    Refills i references (i.refilled references) := by
  obtain ⟨opcode, operands⟩ := i
  cases operands with
  | f20bc | f21c | f22c | f31c | f35c | f3rc =>
    obtain ⟨r, rfl⟩ := List.length_eq_one_iff.mp h
    exact ⟨rfl, rfl, rfl, rfl, rfl, rfl⟩
  | f45cc | f4rcc =>
    obtain ⟨r, p, rfl⟩ := List.length_eq_two.mp h
    exact ⟨rfl, rfl, rfl, rfl, rfl, rfl⟩
  | _ =>
    obtain rfl := List.length_eq_zero_iff.mp h
    exact ⟨rfl, rfl, rfl, rfl, rfl, rfl⟩

theorem Refills.references_eq {i : Instruction ρ} {references : List σ} {j : Instruction σ} (h : Refills i references j)
    (hlength : references.length = i.slots.length) : j.references = references := by
  rw [Instruction.references, h.slots]
  exact List.map_snd_zip (by simp [hlength])

/-- An instruction whose slots are filled with its own references is the same. -/
theorem refilled_references (i : Instruction ρ) : i.refilled i.references = i := by
  obtain ⟨opcode, operands⟩ := i
  cases operands <;> rfl

/-- What is in the slots does not matter once they are filled again. -/
theorem refilled_refilled {i : Instruction ρ} {references : List σ} (h : references.length = i.slots.length)
    (references' : List τ) : (i.refilled references).refilled references' = i.refilled references' := by
  obtain ⟨opcode, operands⟩ := i
  cases operands with
  | f20bc | f21c | f22c | f31c | f35c | f3rc =>
    obtain ⟨r, rfl⟩ := List.length_eq_one_iff.mp h
    rfl
  | f45cc | f4rcc =>
    obtain ⟨r, p, rfl⟩ := List.length_eq_two.mp h
    rfl
  | _ =>
    obtain rfl := List.length_eq_zero_iff.mp h
    rfl

section composition

variable {i : Instruction ρ} {m : Type → Type} [Monad m] [LawfulMonad m]

theorem slots_refilled (i : Instruction ρ) (f : ReferenceKind → ρ → σ) :
    (i.refilled (i.slots.map fun slot => f slot.1 slot.2)).slots = i.slots.map fun slot => (slot.1, f slot.1 slot.2) := by
  rw [(refills_refilled (List.length_map _)).slots, List.zip_map']

/-- References that stay make an instruction stay. -/
theorem mapReferences_id (i : Instruction ρ) : (i.mapReferences fun _ r => (pure r : m ρ)) = pure i := by
  rw [mapReferences_eq, List.mapM_pure, map_pure]
  exact congrArg pure i.refilled_references

/-- What is done for the references that a function makes of others is done for the
others together with it. -/
theorem mapReferences_bind_pure (f : ReferenceKind → ρ → σ) (g : ReferenceKind → σ → m τ) :
    ((i.mapReferences fun kind r => (pure (f kind r) : m σ)) >>= fun j => j.mapReferences g) =
      i.mapReferences fun kind r => g kind (f kind r) := by
  rw [mapReferences_eq, List.mapM_pure, map_pure, pure_bind, mapReferences_eq, slots_refilled, List.mapM_map,
    mapReferences_eq]
  congr 1
  funext references
  exact refilled_refilled (List.length_map _) references

end composition

/-! ## Functions that may fail -/

section failures

variable {ε : Type} {f : ReferenceKind → ρ → Except ε σ} {g : ReferenceKind → σ → Except ε τ}
  {slots : List (ReferenceKind × ρ)} {references : List σ}

/-- Where `f` fails for no slot, what follows may be done slot by slot. -/
theorem mapM_zip_eq (h : List.Forall₂ (fun slot s => f slot.1 slot.2 = .ok s) slots references) :
    (((slots.map Prod.fst).zip references).mapM fun slot => g slot.1 slot.2) =
      slots.mapM fun slot => f slot.1 slot.2 >>= g slot.1 := by
  induction h with
  | nil => rfl
  | cons hfirst _ ih =>
    rw [List.map_cons, List.zip_cons_cons, List.mapM_cons, List.mapM_cons, ih, hfirst]
    rfl

variable {i : Instruction ρ} {j : Instruction σ}

theorem mapReferences_eq_ok_iff : i.mapReferences f = .ok j ↔
    ∃ references, List.Forall₂ (fun slot s => f slot.1 slot.2 = .ok s) i.slots references ∧ j = i.refilled references := by
  rw [mapReferences_eq]
  constructor
  · intro h
    cases hreferences : i.slots.mapM fun slot => f slot.1 slot.2 with
    | error e =>
      rw [hreferences] at h
      cases h
    | ok references =>
      rw [hreferences] at h
      cases h
      exact ⟨references, forall₂_of_mapM hreferences, rfl⟩
  · rintro ⟨references, hall, rfl⟩
    rw [mapM_of_forall₂ hall]
    rfl

theorem mapReferences_eq_error_iff {e : ε} :
    i.mapReferences f = .error e ↔ (i.slots.mapM fun slot => f slot.1 slot.2) = .error e := by
  rw [mapReferences_eq]
  cases i.slots.mapM fun slot => f slot.1 slot.2 with
  | error e' =>
    constructor
    · intro h
      cases h
      rfl
    · intro h
      cases h
      rfl
  | ok references => exact ⟨fun h => (nomatch h), fun h => (nomatch h)⟩

theorem exists_of_mapReferences (h : i.mapReferences f = .ok j) : ∀ slot ∈ i.slots, ∃ s, f slot.1 slot.2 = .ok s :=
  fun slot hslot => by
    obtain ⟨references, hall, -⟩ := mapReferences_eq_ok_iff.mp h
    obtain ⟨s, -, hs⟩ := exists_mem_right hall hslot
    exact ⟨s, hs⟩

/-- Where `f` fails for no slot, what follows may be done together with it. -/
theorem mapReferences_bind (h : ∀ slot ∈ i.slots, ∃ s, f slot.1 slot.2 = .ok s) :
    (i.mapReferences f >>= fun j => j.mapReferences g) = i.mapReferences fun kind r => f kind r >>= g kind := by
  obtain ⟨references, hreferences⟩ := exists_mapM h
  have hall := forall₂_of_mapM hreferences
  have hlength := hall.length_eq.symm
  rw [mapReferences_eq, hreferences]
  show (i.refilled references).mapReferences g = _
  rw [mapReferences_eq, (refills_refilled hlength).slots, mapM_zip_eq hall, mapReferences_eq]
  congr 1
  funext references
  exact refilled_refilled hlength references

/-- In any case the same instruction comes out, or none. -/
theorem mapReferences_bind_eq_ok_iff {l : Instruction τ} :
    (i.mapReferences f >>= fun j => j.mapReferences g) = .ok l ↔
      (i.mapReferences fun kind r => f kind r >>= g kind) = .ok l := by
  by_cases h : ∀ slot ∈ i.slots, ∃ s, f slot.1 slot.2 = .ok s
  · rw [mapReferences_bind h]
  · -- Where `f` fails for a slot, it fails both ways.
    refine iff_of_false (fun hl => h ?_) fun hl => h fun slot hslot => ?_
    · cases hj : i.mapReferences f with
      | error e =>
        rw [hj] at hl
        cases hl
      | ok j => exact exists_of_mapReferences hj
    · obtain ⟨t, ht⟩ := exists_of_mapReferences hl slot hslot
      cases hs : f slot.1 slot.2 with
      | error e =>
        rw [hs] at ht
        cases ht
      | ok s => exact ⟨s, rfl⟩

end failures

end Instruction

end Dalvik
