import Dalvik.Proofs.Code.Extent
import Dalvik.Proofs.Instruction.Decoded

/-!
# References and the kinds of their places

The writer looks up a reference among those of its own kind, and the readers look up an index
among the references of the kind that its place has. So whatever is read has references of the
kinds of their places (`StoredCode.fits_of_mem_instructions`), and the instructions of a body
are read as they were written just if its references have these kinds
(`CodeItem.LaidOut.returns_iff`). `Assembly.instructions_returned` says so of the bodies of a
file. The writer does not make sure that the references have these kinds: a type in the place of
a string is written, and comes back as a string.
-/

namespace Dalvik

/-! ## What is read has the kinds of its places -/

@[simp] theorem Reference.kind_arranged (r : Reference) : r.arranged.kind = r.kind := by
  cases r <;> rfl

/-- A reference is found among those of its kind. -/
theorem Resolver.kind_of_resolve {r : Resolver} {kind : ReferenceKind} {index : UInt32} {reference : Reference}
    (h : r.resolve kind index = .ok reference) : reference.kind = kind := by
  cases kind with
  | none => cases h
  | _ =>
    obtain ⟨_, -, rfl⟩ := Result.map_eq_ok h
    rfl

namespace Instruction

open Result

variable {ρ σ : Type}

/-- A slot that is filled again has what was made of its reference. -/
theorem exists_of_mem_zip {f : ReferenceKind → ρ → Result σ} {slots : List (ReferenceKind × ρ)} {references : List σ}
    (h : List.Forall₂ (fun slot s => f slot.1 slot.2 = .ok s) slots references) {slot : ReferenceKind × σ}
    (hslot : slot ∈ (slots.map Prod.fst).zip references) : ∃ r, f slot.1 r = .ok slot.2 := by
  induction h with
  | nil => cases hslot
  | @cons first s _ _ hfirst _ ih =>
    rw [List.map_cons, List.zip_cons_cons] at hslot
    rcases List.mem_cons.mp hslot with rfl | hslot
    · exact ⟨first.2, hfirst⟩
    · exact ih hslot

/-- What has been mapped to a slot is what the slot was mapped to. -/
theorem exists_of_mem_slots {f : ReferenceKind → ρ → Result σ} {i : Instruction ρ} {j : Instruction σ}
    (h : i.mapReferences f = .ok j) {slot : ReferenceKind × σ} (hslot : slot ∈ j.slots) :
    ∃ r, f slot.1 r = .ok slot.2 := by
  obtain ⟨references, hall, rfl⟩ := mapReferences_eq_ok_iff.mp h
  rw [(refills_refilled hall.length_eq.symm).slots] at hslot
  exact exists_of_mem_zip hall hslot

theorem slots_map {τ : Type} (f : ρ → τ) (i : Instruction ρ) :
    (i.map f).slots = i.slots.map fun slot => (slot.1, f slot.2) := by
  rw [map_eq]
  exact slots_refilled i fun _ r => f r

/-- The references have the kinds of their places. -/
def Fits (i : Instruction Reference) : Prop :=
  ∀ slot ∈ i.slots, slot.2.kind = slot.1

theorem fits_arranged_extended (i : Instruction Reference) : i.arranged.extended.Fits ↔ i.Fits := by
  rw [Fits, slots_extended, arranged, slots_map, List.forall_mem_map]
  simp [Fits]

end Instruction

namespace StoredCode

theorem takes_readInstruction (c : StoredCode) : Read.Takes c.readInstruction fun i _ => i.Fits := by
  refine .tell fun _ => .within ((Instruction.takes_decode _).bind fun raw _ _ => ?_) _
  refine (Read.takes_ofResult _).mono fun i _ ⟨_, hi⟩ slot hslot => ?_
  obtain ⟨_, hresolved⟩ := Instruction.exists_of_mem_slots hi hslot
  exact Resolver.kind_of_resolve hresolved

/-- An instruction that is read has references of the kinds of their places. -/
theorem fits_of_mem_instructions {c : StoredCode} {i : Instruction Reference} (h : .ok i ∈ c.instructions) :
    i.Fits := by
  -- The stream ends with the first failure, so what is read is read by a step that succeeds.
  suffices hfrom : ∀ fuel offset, .ok i ∈ c.instructionsFrom c.codeBytes fuel offset → i.Fits from hfrom _ _ h
  intro fuel
  induction fuel with
  | zero => exact fun _ hmem => nomatch hmem
  | succ fuel ih =>
    intro offset hmem
    rw [instructionsFrom] at hmem
    split at hmem
    · rename_i hlt
      split at hmem
      · rename_i first next hread
        obtain ⟨_, -, -, hfirst⟩ := c.takes_readInstruction _ _ _ _ (Nat.le_of_lt hlt) hread
        rcases List.mem_cons.mp hmem with heq | hrest
        · cases heq
          exact hfirst
        · exact ih next hrest
      · cases List.mem_singleton.mp hmem
    · cases hmem

end StoredCode

/-! ## What comes back -/

/-- The instructions come back with their references arranged, and with the elements of arrays as their low bytes
give them. -/
def StoredCode.Returns (c : StoredCode) (code : Code) : Prop :=
  c.instructions = (code.instructions.map fun i => i.arranged.extended).map .ok

/-- They are the ones that were written just if the references have been arranged, too. -/
theorem StoredCode.exact_iff_of_returns_iff {c : StoredCode} {code : Code}
    (h : c.Returns code ↔ ∀ i ∈ code.instructions, i.Fits) :
    c.instructions = (code.instructions.map Instruction.extended).map .ok ↔
      ∀ i ∈ code.instructions, i.Fits ∧ ∀ slot ∈ i.slots, slot.2.arranged = slot.2 := by
  constructor
  · intro hexact
    have hfits : ∀ i ∈ code.instructions, i.Fits := fun i hi => by
      have hmem : .ok i.extended ∈ c.instructions := by
        rw [hexact, List.map_map]
        exact List.mem_map.mpr ⟨i, hi, rfl⟩
      simpa [Instruction.Fits, Instruction.slots_extended] using fits_of_mem_instructions hmem
    have hsame := (h.mpr hfits).symm.trans hexact
    simp only [List.map_map, List.map_inj_left, Function.comp_apply, Except.ok.injEq] at hsame
    refine fun i hi => ⟨hfits i hi, ?_⟩
    have hslots := congrArg Instruction.slots (hsame i hi)
    rw [Instruction.slots_extended, Instruction.slots_extended, Instruction.arranged, Instruction.slots_map] at hslots
    have hslots := List.map_inj_left.mp (hslots.trans (List.map_id _).symm)
    exact fun slot hslot => congrArg Prod.snd (hslots slot hslot)
  · intro hall
    have hreturns := h.mpr fun i hi => (hall i hi).1
    rw [Returns] at hreturns
    have harranged : ∀ i ∈ code.instructions, i.arranged = i := fun i hi => Instruction.map_eq_self (hall i hi).2
    rw [hreturns, List.map_congr_left fun i hi => congrArg Instruction.extended (harranged i hi)]

namespace CodeItem

/-- The instructions come back just if all references have the kinds of their places. -/
theorem LaidOut.returns_iff {c : StoredCode} {n : Numbering} {opcodes : Opcodes} {code : Code} {debugOffset : Nat}
    {form : List UInt8} (h : LaidOut c n opcodes code debugOffset form) (hundoes : c.image.resolver.Undoes n)
    (hcovers : c.image.opcodes.Covers opcodes) (hopcodes : ∀ i ∈ code.instructions, i.opcode ∈ Opcode.table)
    (hlt : form.length < extentBound) : c.Returns code ↔ ∀ i ∈ code.instructions, i.Fits := by
  refine ⟨fun hreturns i hi => ?_, fun hfits => ?_⟩
  · have hmem : .ok i.arranged.extended ∈ c.instructions := by
      rw [hreturns, List.map_map]
      exact List.mem_map.mpr ⟨i, hi, rfl⟩
    exact i.fits_arranged_extended.mp (StoredCode.fits_of_mem_instructions hmem)
  · exact h.instructions_eq hcovers hlt hundoes fun i hi => ⟨hopcodes i hi, hfits i hi⟩

end CodeItem

namespace Image

theorem foldl_noteSection_opcodes (items : List MapItem) (image : Image) (opcodes : Opcodes) :
    items.foldl noteSection { image with opcodes } = { items.foldl noteSection image with opcodes } := by
  induction items generalizing image with
  | nil => rfl
  | cons item items ih =>
    have hitem : noteSection { image with opcodes } item = { noteSection image item with opcodes } := by
      unfold noteSection
      split <;> [rfl; split <;> [rfl; split <;> rfl]]
    rw [List.foldl_cons, List.foldl_cons, hitem, ih]

theorem ofHeader_opcodes (bytes : Bytes) (header : Header) (opcodes opcodes' : Opcodes) :
    ofHeader bytes header opcodes' = (ofHeader bytes header opcodes).map ({ · with opcodes := opcodes' }) := by
  have hreach (offset : Nat) : reach { bytes, header, opcodes := opcodes' } offset =
      reach { bytes, header, opcodes } offset := rfl
  have hread (offset : Nat) : readAt { bytes, header, opcodes := opcodes' } (Layout.read : Read MapList) offset =
      readAt { bytes, header, opcodes } Layout.read offset := rfl
  unfold ofHeader
  by_cases hsize : header.fileSize.toNat > bytes.size
  · rw [if_pos hsize, if_pos hsize]
    rfl
  · rw [if_neg hsize, if_neg hsize]
    dsimp only
    by_cases hmap : header.mapOffset = noOffset
    · rw [if_pos hmap, if_pos hmap]
      rfl
    · rw [if_neg hmap, if_neg hmap, hreach, hread]
      cases reach { bytes, header, opcodes } header.mapOffset.toNat with
      | error e => rfl
      | ok u =>
        cases readAt { bytes, header, opcodes } (Layout.read : Read MapList) header.mapOffset.toNat with
        | error e => rfl
        | ok map => exact congrArg Except.ok (foldl_noteSection_opcodes map.items { bytes, header, opcodes } opcodes')

/-- The opcodes that a file is opened with change nothing else. -/
theorem openWith_eq {bytes : Bytes} {image : Image} (h : ofBytes bytes = .ok image) (opcodes : Opcodes) :
    openWith bytes opcodes = .ok { image with opcodes } := by
  obtain ⟨header, hheader, h⟩ := Result.bind_eq_ok h
  obtain ⟨version, -, h⟩ := Result.bind_eq_ok h
  obtain ⟨own, -, h⟩ := Result.bind_eq_ok h
  rw [openWith, hheader, Result.ok_bind, ofHeader_opcodes bytes header own, h]
  rfl

end Image

/-- The code item of a body is read as its instructions are reread. These are the ones that were written, apart from
annotations in call sites that were not arranged, just if all references have the kinds of their places. -/
structure StoredCode.Rereads (c : StoredCode) (n : Numbering) (code : Code) : Prop where
  returns_iff : c.Returns code ↔ ∀ i ∈ code.instructions, i.Fits
  exact_iff : c.instructions = (code.instructions.map Instruction.extended).map .ok ↔
    ∀ i ∈ code.instructions, i.Fits ∧ ∀ slot ∈ i.slots, slot.2.arranged = slot.2
  instructions_eq : ∀ is, code.instructions.mapM (Instruction.reread c.image.resolver n) = .ok is →
    c.instructions = is.map .ok

theorem CodeItem.exists_rereads {n : Numbering} {opcodes : Opcodes} {m : MethodDef} {code : Code} {debugOffset : UInt32}
    {form : List UInt8} (h : encode n opcodes m code debugOffset = .ok form)
    (hopcodes : ∀ i ∈ code.instructions, i.opcode ∈ Opcode.table) (hdebug : debugOffset.toNat < extentBound)
    (hlt : form.length < extentBound) {image : Image} (hundoes : image.resolver.Undoes n)
    (hcovers : image.opcodes.Covers opcodes) {offset : Nat} (hbytes : image.bytes.Holds offset form) :
    ∃ c, StoredCode.at? image offset = .ok c ∧ c.image = image ∧ c.Rereads n code := by
  obtain ⟨c, hat, rfl, -, hlaid⟩ := exists_laidOut hdebug h hlt hbytes
  have hreturns := hlaid.returns_iff hundoes hcovers hopcodes hlt
  exact ⟨c, hat, rfl, hreturns, StoredCode.exact_iff_of_returns_iff hreturns,
    fun is his => hlaid.instructions_eq_of_reread hcovers hlt hopcodes his⟩

namespace Assembly

/-- Wherever the code item of a body stands in an image with the same references, its instructions come back just if
all references have the kinds of their places, with annotations in call sites arranged and the elements of arrays as
their low bytes give them. In any case they are read as they are reread: each reference is the one that the
kind of the place has behind the index. A file that is opened with the opcodes it was written with is such an image, and
the code items of all bodies of the classes that have been added stand in it. -/
theorem instructions_returned {opcodes : Opcodes} {calls : List Call} {a : Assembly} (ha : history opcodes calls = a) :
    (∀ (m : MethodDef) (code : Code) (debugOffset : UInt32) (form : List UInt8),
      CodeItem.encode a.pools.numbering a.opcodes m code debugOffset = .ok form →
      (∀ i ∈ code.instructions, i.opcode ∈ Opcode.table) → debugOffset.toNat < extentBound →
      form.length < extentBound → ∀ (image : Image) (offset : Nat), image.resolver.Undoes a.pools.numbering →
        image.opcodes.Covers a.opcodes → image.bytes.Holds offset form →
        ∃ c, StoredCode.at? image offset = .ok c ∧ c.image = image ∧ c.Rereads a.pools.numbering code) ∧
    ∀ bytes, (write.on a).1 = .ok bytes → bytes.size < extentBound →
      ∃ image, Image.openWith bytes a.opcodes = .ok image ∧ image.resolver.Undoes a.pools.numbering ∧
        ∀ added, Added opcodes calls added → ∀ m ∈ added.methods, ∀ code ∈ m.code, ∃ debugOffset form offset,
          CodeItem.encode a.pools.numbering a.opcodes m code debugOffset = .ok form ∧
          image.bytes.Holds offset form ∧ ((∀ i ∈ code.instructions, i.opcode ∈ Opcode.table) →
            ∃ c, StoredCode.at? image offset = .ok c ∧ c.image = image ∧ c.Rereads a.pools.numbering code) := by
  refine ⟨fun m code debugOffset form h hopcodes hdebug hlt image offset hundoes hcovers hbytes =>
    CodeItem.exists_rereads h hopcodes hdebug hlt hundoes hcovers hbytes, fun bytes hwrite hsize => ?_⟩
  obtain ⟨hsealed, t, image, himage, hopens⟩ := exists_opens_of_write ha hwrite hsize
  have hundoes : ({ image with opcodes := a.opcodes } : Image).resolver.Undoes a.pools.numbering :=
    hopens.resolver_undoes hsealed.typed.toComplete
  refine ⟨_, Image.openWith_eq himage a.opcodes, hundoes, fun added hadded m hm code hcode => ?_⟩
  obtain ⟨_, form, offset, hform, hdebug, hlt, hheld⟩ := exists_form_of_added ha hopens hadded hm hcode
  exact ⟨_, form, offset, hform, hheld, fun hopcodes =>
    CodeItem.exists_rereads hform hopcodes hdebug hlt hundoes Opcodes.Covers.rfl hheld⟩

theorem undoes_imageOfInt (form : List UInt8) : (imageOfInt form).resolver.Undoes ofInt.pools.numbering := by
  obtain ⟨hnumbers, hstring, htype, -⟩ := numbers_ofInt
  have hagrees := agrees_imageOfInt form
  have hnone (e : Entry) (he : e ∉ Entry.ofType "I") : ¬ ofInt.pools.Has e := fun hhas => he ((has_ofInt e).mp hhas)
  refine ⟨⟨fun {s i} hs => ⟨?_, hagrees.string hs⟩, fun {d i} hd => ⟨?_, hagrees.type hd⟩, fun {f i} hf => ?_,
    fun {m i} hm => ?_, fun {p i} hp => ?_, fun {k i} hk => ?_⟩, fun {c i} hc => ?_⟩
  · obtain ⟨hkey, rfl⟩ := hnumbers.string.of_eq_ok hs
    obtain rfl : s = "I" := by simpa [Entry.ofType] using (has_ofInt (.string s)).mp hkey
    rw [hstring]
    decide
  · obtain ⟨hkey, rfl⟩ := hnumbers.type.of_eq_ok hd
    obtain rfl : d = "I" := by simpa [Entry.ofType] using (has_ofInt (.type d)).mp hkey
    rw [htype]
    decide
  · exact (hnone (.field f) (by simp [Entry.ofType]) (hnumbers.field.of_eq_ok hf).1).elim
  · exact (hnone (.method m) (by simp [Entry.ofType]) (hnumbers.method.of_eq_ok hm).1).elim
  · exact (hnone (.proto p) (by simp [Entry.ofType]) (hnumbers.proto.of_eq_ok hp).1).elim
  · exact (hnone (.handle k) (by simp [Entry.ofType]) (hnumbers.handle.of_eq_ok hk).1).elim
  · exact (hnone (.callSite c) (by simp [Entry.ofType]) (hnumbers.callSite.of_eq_ok hc).1).elim

/-- A body that loads a string. -/
def literalCode (literal : Reference) : Code where
  registers := 1
  instructions := [
    ⟨⟨"const-string", 0x1a, .string, .f21c, [.canThrow, .canContinue, .setsRegister], none, none, none⟩,
      .f21c 0 literal⟩,
    ⟨⟨"return-void", 0x0e, .none, .f10x, [], none, none, none⟩, .f10x⟩]

/-- A type in the place of a string is written as the string with the same index, and read as that; the body of a
method in a file comes back. -/
theorem instructions_returned_mistaken : ∃ (form : List UInt8) (c : StoredCode) (a : Assembly) (bytes : Bytes)
    (image : Image), CodeItem.encode ofInt.pools.numbering .standard DexFile.smallMethod (literalCode (.type "I")) 0 =
      .ok form ∧ (∀ i ∈ (literalCode (.type "I")).instructions, i.opcode ∈ Opcode.table) ∧ form.length < extentBound ∧
    (imageOfInt form).resolver.Undoes ofInt.pools.numbering ∧ (imageOfInt form).bytes.Holds 11 form ∧
    StoredCode.at? (imageOfInt form) 11 = .ok c ∧ ¬ c.Returns (literalCode (.type "I")) ∧
    c.instructions = (literalCode (.string "I")).instructions.map .ok ∧
    history .standard smallCalls = a ∧ (write.on a).1 = .ok bytes ∧ bytes.size < extentBound ∧
    Image.openWith bytes a.opcodes = .ok image ∧ ∃ offset c, StoredCode.at? image offset = .ok c ∧
      c.instructions = DexFile.smallCode.instructions.map .ok := by
  obtain ⟨hnumbers, hindex, hindex', -⟩ := numbers_ofInt
  have hstring : ofInt.pools.numbering.indexOf (.string "I") = .ok 0 :=
    hindex ▸ (hnumbers.string "I").1 ((has_ofInt (.string "I")).mpr (by decide))
  have htype : ofInt.pools.numbering.type "I" = .ok 0 :=
    hindex' ▸ (hnumbers.type "I").1 ((has_ofInt (.type "I")).mpr (by decide))
  have hindexed : ((literalCode (.type "I")).instructions.mapM fun i =>
      i.mapReferences fun _ r => ofInt.pools.numbering.indexOf r) = .ok
        [⟨⟨"const-string", 0x1a, .string, .f21c, [.canThrow, .canContinue, .setsRegister], none, none, none⟩,
          .f21c 0 0⟩, ⟨⟨"return-void", 0x0e, .none, .f10x, [], none, none, none⟩, .f10x⟩] := by
    simp [literalCode, Instruction.mapReferences, Numbering.indexOf, htype, Result.ok_bind]
  obtain ⟨form, hform, hlength⟩ : ∃ form, CodeItem.encode ofInt.pools.numbering .standard DexFile.smallMethod
      (literalCode (.type "I")) 0 = .ok form ∧ form.length < extentBound := by
    rw [CodeItem.encode, hindexed, Result.ok_bind]
    exact ⟨_, rfl, by decide⟩
  have hopcodes : ∀ i ∈ (literalCode (.type "I")).instructions, i.opcode ∈ Opcode.table := by decide +kernel
  have hundoes := undoes_imageOfInt form
  have hheld := (holds_imageOfInt form).2.2.2
  have hstandard : ofInt.opcodes = .standard :=
    (congrArg Assembly.opcodes ofInt_eq).trans (opcodes_gather .standard [.type "I"])
  obtain ⟨hreturned, -⟩ := instructions_returned (rfl : history _ _ = ofInt)
  obtain ⟨c, hat, himage, hrereads⟩ := hreturned _ _ _ _ (hstandard.symm ▸ hform) hopcodes (by decide) hlength _ _
    hundoes (hstandard.symm ▸ Opcodes.Covers.rfl) hheld
  have hmistaken : ¬ ∀ i ∈ (literalCode (.type "I")).instructions, i.Fits := by
    unfold Instruction.Fits
    decide
  have hreread : (literalCode (.type "I")).instructions.mapM (Instruction.reread c.image.resolver
      ofInt.pools.numbering) = .ok (literalCode (.string "I")).instructions := by
    have hresolved := hundoes.resolve_eq hstring
    simp only [Reference.kind, Reference.arranged] at hresolved
    simp [himage, literalCode, Instruction.reread, Instruction.mapReferences, Instruction.extended, Operands.extended,
      Numbering.indexOf, htype, hresolved, Result.ok_bind]
  obtain ⟨a, bytes, ha, -, -, hwrite, hsize⟩ := exists_small
  obtain ⟨image, hopen, -, hbodies⟩ := (instructions_returned ha).2 _ hwrite hsize
  obtain ⟨debugOffset, smallForm, offset, -, hsmallHeld, hsmall⟩ :=
    hbodies _ added_small DexFile.smallMethod (by decide) DexFile.smallCode rfl
  obtain ⟨c', hat', -, hrereads'⟩ := hsmall (by decide +kernel)
  have hsmallFits : ∀ i ∈ DexFile.smallCode.instructions, i.Fits ∧ ∀ slot ∈ i.slots, slot.2.arranged = slot.2 := by
    unfold Instruction.Fits
    decide
  exact ⟨form, c, a, bytes, image, hform, hopcodes, hlength, hundoes, hheld, hat, mt hrereads.returns_iff.mp hmistaken,
    hrereads.instructions_eq _ hreread, ha, hwrite, hsize, hopen, offset, c', hat', hrereads'.exact_iff.mpr hsmallFits⟩

end Assembly

end Dalvik
