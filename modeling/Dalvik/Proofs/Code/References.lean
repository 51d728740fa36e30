import Dalvik.Assembly.CodeItem
import Dalvik.Assembly.Entry
import Dalvik.Proofs.Instruction.Slots

/-!
# What is listed is what is replaced

`Instruction.noting` notes the slots for which a function is called. Replacing the
references of an instruction calls the function for its slots in order, up to the first
for which it fails (`Instruction.on_mapReferences_noting`), and so it is for code
(`Instruction.on_mapM_mapReferences_noting`). `Instruction.mapReferences_slotWise` says all
that holds of replacing references, and that a body is written with the indices of
exactly the references that have entries because of its instructions.
-/

namespace Dalvik

variable {ρ σ τ ε : Type}

/-- Steps that may fail and that note slots. -/
abbrev Noting (ε ρ : Type) :=
  ExceptT ε (StateM (List (ReferenceKind × ρ)))

namespace Noting

variable {α β : Type}

/-- Runs a step after the slots that have been noted, with those that are noted then. -/
def on (step : Noting ε ρ α) (noted : List (ReferenceKind × ρ)) : Except ε α × List (ReferenceKind × ρ) :=
  step.run.run noted

@[simp] theorem on_pure (a : α) (noted : List (ReferenceKind × ρ)) : on (pure a : Noting ε ρ α) noted = (.ok a, noted) :=
  rfl

theorem on_bind (step : Noting ε ρ α) (next : α → Noting ε ρ β) (noted : List (ReferenceKind × ρ)) :
    (step >>= next).on noted =
      match step.on noted with
      | (.ok a, noted) => (next a).on noted
      | (.error e, noted) => (.error e, noted) := by
  show ExceptT.bindCont next (step.on noted).1 (step.on noted).2 = _
  rcases step.on noted with ⟨e | a, noted⟩ <;> rfl

theorem on_map (f : α → β) (step : Noting ε ρ α) (noted : List (ReferenceKind × ρ)) :
    (f <$> step).on noted = ((step.on noted).1.map f, (step.on noted).2) := by
  rw [map_eq_pure_bind, on_bind]
  rcases step.on noted with ⟨e | a, noted⟩ <;> rfl

end Noting

namespace Instruction

/-- What `f` makes of a reference, with a note of the slot. -/
def noting (f : ReferenceKind → ρ → Except ε σ) (kind : ReferenceKind) (r : ρ) : Noting ε ρ σ := do
  modify (· ++ [(kind, r)])
  MonadExcept.ofExcept (f kind r)

/-- The slots up to the first for which `f` fails. -/
def called (f : ReferenceKind → ρ → Except ε σ) : List (ReferenceKind × ρ) → List (ReferenceKind × ρ)
  | [] => []
  | slot :: slots =>
    match f slot.1 slot.2 with
    | .ok _ => slot :: called f slots
    | .error _ => [slot]

variable {f : ReferenceKind → ρ → Except ε σ}

/-- A function that fails for no slot is called for all of them. -/
theorem called_append_of_ok {slots more : List (ReferenceKind × ρ)}
    (h : ∀ slot ∈ slots, ∃ s, f slot.1 slot.2 = .ok s) : called f (slots ++ more) = slots ++ called f more := by
  induction slots with
  | nil => rfl
  | cons slot slots ih =>
    obtain ⟨s, hs⟩ := h slot List.mem_cons_self
    rw [List.cons_append, called, hs]
    dsimp only
    rw [ih fun slot hslot => h slot (List.mem_cons_of_mem _ hslot), List.cons_append]

theorem called_of_ok {slots : List (ReferenceKind × ρ)} (h : ∀ slot ∈ slots, ∃ s, f slot.1 slot.2 = .ok s) :
    called f slots = slots := by
  have happend : called f (slots ++ []) = slots ++ called f [] := called_append_of_ok h
  rwa [List.append_nil, called, List.append_nil] at happend

/-- A function that fails for a slot is called for no slot behind it. -/
theorem called_append_of_error {slots : List (ReferenceKind × ρ)} {e : ε}
    (h : (slots.mapM fun slot => f slot.1 slot.2) = .error e) (more : List (ReferenceKind × ρ)) :
    called f (slots ++ more) = called f slots := by
  induction slots with
  | nil => cases h
  | cons slot slots ih =>
    rw [List.mapM_cons] at h
    rw [List.cons_append, called, called]
    cases hs : f slot.1 slot.2 with
    | error e => rfl
    | ok s =>
      cases hrest : slots.mapM fun slot => f slot.1 slot.2 with
      | ok rest =>
        rw [hs, hrest] at h
        cases h
      | error e' =>
        rw [hs, hrest] at h
        cases h
        exact congrArg _ (ih hrest)

theorem called_isPrefix_slots (f : ReferenceKind → ρ → Except ε σ) (slots : List (ReferenceKind × ρ)) :
    called f slots <+: slots := by
  induction slots with
  | nil => exact List.prefix_rfl
  | cons slot slots ih =>
    rw [called]
    cases f slot.1 slot.2 with
    | error e => exact ⟨slots, rfl⟩
    | ok s => exact List.cons_prefix_cons.mpr ⟨rfl, ih⟩

/-- The first failure is the outcome. -/
theorem mapM_eq_error {before after : List (ReferenceKind × ρ)} {slot : ReferenceKind × ρ} {e : ε}
    (hbefore : ∀ slot ∈ before, ∃ s, f slot.1 slot.2 = .ok s) (he : f slot.1 slot.2 = .error e) :
    ((before ++ slot :: after).mapM fun slot => f slot.1 slot.2) = .error e := by
  induction before with
  | nil =>
    rw [List.nil_append, List.mapM_cons, he]
    rfl
  | cons first before ih =>
    obtain ⟨s, hs⟩ := hbefore first List.mem_cons_self
    rw [List.cons_append, List.mapM_cons, hs, ih fun slot hslot => hbefore slot (List.mem_cons_of_mem _ hslot)]
    rfl

theorem on_noting (kind : ReferenceKind) (r : ρ) (noted : List (ReferenceKind × ρ)) :
    (noting f kind r).on noted = (f kind r, noted ++ [(kind, r)]) := by
  unfold noting
  cases f kind r <;> rfl

/-- Slots are noted in order, up to the first for which `f` fails. -/
theorem on_mapM_noting (f : ReferenceKind → ρ → Except ε σ) (slots noted : List (ReferenceKind × ρ)) :
    Noting.on (slots.mapM fun slot => noting f slot.1 slot.2) noted =
      (slots.mapM fun slot => f slot.1 slot.2, noted ++ called f slots) := by
  induction slots generalizing noted with
  | nil =>
    rw [called, List.append_nil]
    rfl
  | cons slot slots ih =>
    rw [List.mapM_cons, List.mapM_cons, Noting.on_bind, on_noting, called]
    cases f slot.1 slot.2 with
    | error e => rfl
    | ok s =>
      dsimp only
      rw [Noting.on_bind, ih, List.append_assoc]
      cases (slots.mapM fun slot => f slot.1 slot.2) <;> rfl

/-- The function is called for the slots in order, up to the first for which it fails. -/
theorem on_mapReferences_noting (f : ReferenceKind → ρ → Except ε σ) (i : Instruction ρ)
    (noted : List (ReferenceKind × ρ)) :
    (i.mapReferences (noting f)).on noted = (i.mapReferences f, noted ++ called f i.slots) := by
  rw [mapReferences_eq, mapReferences_eq, Noting.on_map, on_mapM_noting]
  rfl

/-- In code the function is called for the slots of one instruction after the other. -/
theorem on_mapM_mapReferences_noting (f : ReferenceKind → ρ → Except ε σ) (code : List (Instruction ρ))
    (noted : List (ReferenceKind × ρ)) :
    Noting.on (code.mapM fun i => i.mapReferences (noting f)) noted =
      (code.mapM fun i => i.mapReferences f, noted ++ called f (code.flatMap slots)) := by
  induction code generalizing noted with
  | nil =>
    rw [List.flatMap_nil, called, List.append_nil]
    rfl
  | cons i code ih =>
    rw [List.mapM_cons, List.mapM_cons, Noting.on_bind, on_mapReferences_noting, List.flatMap_cons]
    cases hi : i.mapReferences f with
    | error e =>
      rw [called_append_of_error (by rwa [mapReferences_eq_error_iff] at hi)]
      rfl
    | ok j =>
      rw [called_append_of_ok (exists_of_mapReferences hi)]
      dsimp only
      rw [Noting.on_bind, ih, List.append_assoc, called_of_ok (exists_of_mapReferences hi)]
      cases code.mapM fun i => i.mapReferences f <;> rfl

/-! ## Instructions -/

/-- What holds of replacing the references of an instruction. -/
structure SlotWise (i : Instruction ρ) : Prop where
  /-- The references are replaced slot by slot and put back, whatever else happens on the way. -/
  inOrder : ∀ {m : Type → Type} [Monad m] [LawfulMonad m] {σ : Type} (f : ReferenceKind → ρ → m σ),
    i.mapReferences f = i.refilled <$> i.slots.mapM fun slot => f slot.1 slot.2
  /-- Other references in the slots leave everything else as it is. -/
  refills : ∀ {σ : Type} (references : List σ), references.length = i.slots.length →
    Refills i references (i.refilled references)
  /-- The slots hold the references that are listed. -/
  listed : i.slots.map Prod.snd = i.references
  /-- Where the function fails for no slot, it is called for each, and what it makes of the references
  takes their place in an instruction that is otherwise the same. -/
  succeeds : ∀ {ε σ : Type} (f : ReferenceKind → ρ → Except ε σ) (noted : List (ReferenceKind × ρ)),
    (∀ slot ∈ i.slots, ∃ s, f slot.1 slot.2 = .ok s) →
      ∃ j, i.mapReferences f = .ok j ∧ (i.mapReferences (noting f)).on noted = (.ok j, noted ++ i.slots) ∧
        List.Forall₂ (fun slot s => f slot.1 slot.2 = .ok s) i.slots j.references ∧ Refills i j.references j
  /-- Where the function fails for a slot first, it is called for no slot behind it, and its error
  is the outcome. -/
  fails : ∀ {ε σ : Type} (f : ReferenceKind → ρ → Except ε σ) (noted before : List (ReferenceKind × ρ))
    (slot : ReferenceKind × ρ) (after : List (ReferenceKind × ρ)) (e : ε), i.slots = before ++ slot :: after →
      (∀ slot ∈ before, ∃ s, f slot.1 slot.2 = .ok s) → f slot.1 slot.2 = .error e →
        i.mapReferences f = .error e ∧ (i.mapReferences (noting f)).on noted = (.error e, noted ++ (before ++ [slot]))
  /-- References that stay make an instruction stay. -/
  identity : ∀ {m : Type → Type} [Monad m] [LawfulMonad m], (i.mapReferences fun _ r => (pure r : m ρ)) = pure i
  /-- What is done for the references that a function makes of others is done for the others together
  with it. -/
  composition : ∀ {m : Type → Type} [Monad m] [LawfulMonad m] {σ τ : Type} (f : ReferenceKind → ρ → σ)
    (g : ReferenceKind → σ → m τ), ((i.mapReferences fun kind r => (pure (f kind r) : m σ)) >>= fun j => j.mapReferences g) =
      i.mapReferences fun kind r => g kind (f kind r)
  /-- So it is for functions that may fail, unless the first of them fails for a slot; then both ways
  fail. -/
  chained : ∀ {ε σ τ : Type} (f : ReferenceKind → ρ → Except ε σ) (g : ReferenceKind → σ → Except ε τ),
    ((∀ slot ∈ i.slots, ∃ s, f slot.1 slot.2 = .ok s) →
      (i.mapReferences f >>= fun j => j.mapReferences g) = i.mapReferences fun kind r => f kind r >>= g kind) ∧
    ∀ l, (i.mapReferences f >>= fun j => j.mapReferences g) = .ok l ↔
      (i.mapReferences fun kind r => f kind r >>= g kind) = .ok l

theorem slotWise (i : Instruction ρ) : SlotWise i where
  inOrder := mapReferences_eq i
  refills _ := refills_refilled
  listed := rfl
  succeeds f noted h := by
    obtain ⟨references, hreferences⟩ := Result.exists_mapM h
    have hall := Result.forall₂_of_mapM hreferences
    have hlength := hall.length_eq.symm
    have hmap := mapReferences_eq_ok_iff.mpr ⟨references, hall, rfl⟩
    have hfills := refills_refilled hlength
    have hlisted := hfills.references_eq hlength
    refine ⟨_, hmap, ?_, hlisted.symm ▸ hall, hlisted.symm ▸ hfills⟩
    rw [on_mapReferences_noting, hmap, called_of_ok h]
  fails f noted before slot after e hslots hbefore he := by
    have hmap : i.mapReferences f = .error e := mapReferences_eq_error_iff.mpr (hslots ▸ mapM_eq_error hbefore he)
    refine ⟨hmap, ?_⟩
    rw [on_mapReferences_noting, hmap, hslots, called_append_of_ok hbefore, called, he]
  identity := mapReferences_id i
  composition := mapReferences_bind_pure
  chained _ _ := ⟨mapReferences_bind, fun _ => mapReferences_bind_eq_ok_iff⟩

/-! ## Bodies -/

/-- What is asked for while the references of a body are replaced by their indices. -/
def asked (n : Numbering) (code : List (Instruction Reference)) :
    Result (List (Instruction UInt32)) × List (ReferenceKind × Reference) :=
  Noting.on (code.mapM fun i => i.mapReferences (noting fun _ r => n.indexOf r)) []

theorem map_snd_slots (code : List (Instruction ρ)) : (code.flatMap slots).map Prod.snd = code.flatMap references :=
  List.map_flatMap

/-- A body is written with the indices of exactly the references that have entries because
of its instructions. -/
structure IndexedAsListed (n : Numbering) (c : Code) : Prop where
  /-- The entries for the instructions are those for the references that are listed. -/
  entries : ∃ others, Entry.ofCode c = (c.instructions.flatMap references).flatMap Entry.ofReference ++ others
  /-- A code item begins with the replacement of all references. -/
  written : ∀ (o : Opcodes) (m : MethodDef) (debugOffset : UInt32), ∃ rest : List (Instruction UInt32) → Result (List UInt8),
    CodeItem.encode n o m c debugOffset = (asked n c.instructions).1 >>= rest
  /-- The references are asked for in order, up to one that has no index. -/
  inOrder : (asked n c.instructions).2.map Prod.snd <+: c.instructions.flatMap references
  /-- If there is none, they are asked for without exception. -/
  complete : ∀ indexed, (asked n c.instructions).1 = .ok indexed →
    (asked n c.instructions).2.map Prod.snd = c.instructions.flatMap references

theorem indexedAsListed (n : Numbering) (c : Code) : IndexedAsListed n c := by
  have hasked : asked n c.instructions = (c.instructions.mapM fun i => i.mapReferences fun _ r => n.indexOf r,
      called (fun _ r => n.indexOf r) (c.instructions.flatMap slots)) := on_mapM_mapReferences_noting _ _ _
  constructor
  case entries =>
    rw [List.flatMap_assoc]
    exact ⟨_, List.append_assoc ..⟩
  case written =>
    intro o m debugOffset
    rw [hasked]
    exact ⟨_, rfl⟩
  case inOrder =>
    rw [hasked, ← map_snd_slots]
    exact (called_isPrefix_slots _ _).map _
  case complete =>
    intro indexed h
    rw [hasked] at h ⊢
    rw [← map_snd_slots, called_of_ok]
    intro slot hslot
    obtain ⟨i, hi, hslot⟩ := List.mem_flatMap.mp hslot
    obtain ⟨j, -, hj⟩ := exists_mem_right (Result.forall₂_of_mapM h) hi
    exact exists_of_mapReferences hj slot hslot

/-- References are replaced slot by slot, and those that have entries because of the
instructions of a body are those that it is written with. -/
theorem mapReferences_slotWise :
    (∀ {ρ : Type} (i : Instruction ρ), SlotWise i) ∧ ∀ (n : Numbering) (c : Code), IndexedAsListed n c :=
  ⟨slotWise, indexedAsListed⟩

/-- A call with a method and a prototype. -/
def polymorphic : Instruction UInt32 :=
  ⟨(Opcode.ofName? "invoke-polymorphic").getD default, .f45cc [0] 1 2⟩

/-- An index as it is shown. -/
def shown (_ : ReferenceKind) (index : UInt32) : Except String String :=
  .ok s!"ref{index}"

/-- Only methods are taken. -/
def methodOnly (kind : ReferenceKind) (index : UInt32) : Except String UInt32 :=
  if kind = .method then .ok index else .error "not a method"

/-- Both references are replaced in their order, each for its kind, and a failure for the second is
the outcome. -/
theorem mapReferences_slotWise_polymorphic :
    (∀ slot ∈ polymorphic.slots, ∃ s, shown slot.1 slot.2 = .ok s) ∧
      polymorphic.slots = [(.method, 1)] ++ (.proto, 2) :: [] ∧
      (∀ slot ∈ [(ReferenceKind.method, (1 : UInt32))], ∃ s, methodOnly slot.1 slot.2 = .ok s) ∧
      (∃ j, (polymorphic.mapReferences (noting shown)).on [] = (.ok j, [(.method, 1), (.proto, 2)]) ∧
        j.opcode = polymorphic.opcode ∧ j.references = ["ref1", "ref2"]) ∧
      (polymorphic.mapReferences (noting methodOnly)).on [] = (.error "not a method", [(.method, 1), (.proto, 2)]) := by
  have hshown : ∀ slot ∈ polymorphic.slots, ∃ s, shown slot.1 slot.2 = .ok s := fun slot _ => ⟨_, rfl⟩
  have hslots : polymorphic.slots = [(.method, 1)] ++ (.proto, 2) :: [] := by decide +kernel
  have hmethod : ∀ slot ∈ [(ReferenceKind.method, (1 : UInt32))], ∃ s, methodOnly slot.1 slot.2 = .ok s := by
    intro slot hslot
    cases List.mem_singleton.mp hslot
    exact ⟨_, rfl⟩
  have h := mapReferences_slotWise.1 polymorphic
  obtain ⟨j, -, hnoted, hall, hfills⟩ := h.succeeds shown [] hshown
  refine ⟨hshown, hslots, hmethod, ⟨j, ?_, hfills.opcode, ?_⟩, (h.fails methodOnly [] _ _ _ _ hslots hmethod rfl).2⟩
  · rw [hnoted, hslots]
    rfl
  · rw [hslots] at hall
    generalize j.references = references at hall
    cases hall with
    | cons hfirst hrest =>
      cases hrest with
      | cons hsecond hnone =>
        cases hnone
        cases hfirst
        cases hsecond
        rfl

end Instruction

end Dalvik
