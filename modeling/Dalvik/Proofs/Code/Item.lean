import Dalvik.Proofs.Assembly.Resolution
import Dalvik.Proofs.Code.Debug
import Dalvik.Proofs.Code.Tries
import Dalvik.Proofs.Instruction.Code

/-!
# Code items are read as they were written

A code item that has been written for a body is read, wherever it stands, with its
instructions in the form that a file gives them, and its try items are behind these
(`CodeItem.exists_at?`). `Code.kept` is the body that a file gives back. A body that is
in this form already is kept as it is (`Code.Canonical.kept_eq`).
-/

namespace Dalvik

/-! ## References -/

/-- The reference with the elements of all annotations in it in the order of their
names. -/
def Reference.arranged : Reference → Reference
  | callSite c => callSite c.arranged
  | r => r

/-- The resolver finds each reference behind the index that the numbering gives
it. -/
structure Resolver.Undoes (r : Resolver) (n : Numbering) : Prop where
  values : r.toValueResolver.Undoes n.toValueNumbering
  callSite : ∀ {c i}, n.callSite c = .ok i → r.callSite i = .ok c.arranged

theorem Resolver.Undoes.resolve_eq {r : Resolver} {n : Numbering} (h : r.Undoes n) {reference : Reference}
    {index : UInt32} (hindex : n.indexOf reference = .ok index) :
    r.resolve reference.kind index = .ok reference.arranged := by
  cases reference with
  | string s => exact congrArg (Except.map Reference.string) (h.values.string hindex).2
  | type d => exact congrArg (Except.map Reference.type) (h.values.type hindex).2
  | field f => exact congrArg (Except.map Reference.field) (h.values.field hindex)
  | method m => exact congrArg (Except.map Reference.method) (h.values.method hindex)
  | proto p => exact congrArg (Except.map Reference.proto) (h.values.proto hindex)
  | handle k => exact congrArg (Except.map Reference.handle) (h.values.handle hindex)
  | callSite c => exact congrArg (Except.map Reference.callSite) (h.callSite hindex)

/-! ## Bodies that can be read -/

/-- The opcode of an instruction is known, and its references have the kinds of their
places. -/
structure Instruction.Sound (i : Instruction Reference) : Prop where
  opcode_mem : i.opcode ∈ Opcode.table
  kinds : ∀ slot ∈ i.slots, slot.2.kind = slot.1

/-- The same instruction with its references arranged. -/
def Instruction.arranged (i : Instruction Reference) : Instruction Reference :=
  i.map Reference.arranged

/-- What is read of an instruction: its references are numbered each by its own kind, and looked up
each by the kind of its place. -/
def Instruction.reread (r : Resolver) (n : Numbering) (i : Instruction Reference) : Result (Instruction Reference) := do
  let indexed ← i.mapReferences fun _ reference => n.indexOf reference
  indexed.extended.mapReferences r.resolve

/-- A sound instruction is read as it was written. -/
theorem Instruction.Sound.reread_eq {r : Resolver} {n : Numbering} (hundoes : r.Undoes n) {i : Instruction Reference}
    (hi : i.Sound) {indexed : Instruction UInt32} (hindexed : (i.mapReferences fun _ r => n.indexOf r) = .ok indexed) :
    i.reread r n = .ok i.arranged.extended := by
  obtain ⟨-, -, -, hextended⟩ := mapReferences_eq_ok hindexed
  rw [reread, hindexed, Result.ok_bind, arranged, extended_map]
  refine mapReferences_map hextended fun slot hslot index hindex => ?_
  rw [slots_extended] at hslot
  rw [← hi.kinds slot hslot, hundoes.resolve_eq hindex]

/-- What the readers demand of an instruction: its opcode is known, and its
references have the kinds of their places and are arranged. -/
structure Instruction.Readable (i : Instruction Reference) : Prop where
  opcode_mem : i.opcode ∈ Opcode.table
  references : ∀ slot ∈ i.slots, slot.2.kind = slot.1 ∧ slot.2.arranged = slot.2

theorem Instruction.Readable.sound {i : Instruction Reference} (h : i.Readable) : i.Sound :=
  ⟨h.opcode_mem, fun slot hslot => (h.references slot hslot).1⟩

theorem Instruction.Readable.arranged_eq {i : Instruction Reference} (h : i.Readable) : i.arranged = i :=
  map_eq_self fun slot hslot => (h.references slot hslot).2

/-- What the readers demand of a body. -/
structure Code.Readable (c : Code) : Prop where
  instructions : ∀ i ∈ c.instructions, i.Readable
  tries : ∀ t ∈ c.tries, t.Readable
  debug : DebugItem.Readable 0 c.debug
  line_lt : (DebugInfo.firstLine c.debug).toNat < extentBound

namespace Code

/-- The body that a file gives back: the elements of arrays are those that their low
bytes give, and the handlers for single types come before those for all
exceptions. -/
def kept (c : Code) : Code :=
  { c with instructions := c.instructions.map Instruction.extended, tries := c.tries.map TryBlock.inOrder }

/-- A body in the form in which a file gives it back. -/
structure Canonical (c : Code) : Prop where
  elements : ∀ i ∈ c.instructions, i.extended = i
  handlers : ∀ t ∈ c.tries, t.inOrder = t

theorem Canonical.kept_eq {c : Code} (h : c.Canonical) : c.kept = c := by
  have hinstructions : c.instructions.map Instruction.extended = c.instructions :=
    map_eq_self h.elements
  have htries : c.tries.map TryBlock.inOrder = c.tries := map_eq_self h.handlers
  rw [kept, hinstructions, htries]

end Code

namespace CodeItem

open Read Result StoredCode

variable {n : Numbering} {c : StoredCode}

/-! ## Instructions -/

/-- Instructions follow each other up to the end of the code. -/
theorem instructionsFrom_eq {forms : List (List UInt8)} {is : List (Instruction Reference)}
    (h : List.Forall₂ (fun form i => Yields c.readInstruction form i ∧ form ≠ []) forms is) {code : Bytes}
    {offset fuel : Nat} (hbytes : code.Holds offset forms.flatten) (hend : code.size = offset + forms.flatten.length)
    (hfuel : forms.length ≤ fuel) : c.instructionsFrom code fuel offset = is.map .ok := by
  induction h generalizing offset fuel with
  | nil =>
    cases fuel with
    | zero => rfl
    | succ fuel =>
      rw [instructionsFrom, if_neg (by simp [hend])]
      rfl
  | @cons form i forms is hi _ ih =>
    obtain ⟨fuel, rfl⟩ := Nat.exists_eq_add_one_of_ne_zero (show fuel ≠ 0 by rw [List.length_cons] at hfuel; omega)
    rw [List.flatten_cons, List.length_append] at hend
    rw [List.flatten_cons] at hbytes
    have hpos := List.length_pos_iff.mpr hi.2
    rw [instructionsFrom, if_pos (by omega), hi.1 _ _ hbytes.left]
    dsimp only
    rw [ih hbytes.right (by omega) (by simpa using hfuel), List.map_cons]

section instructions

variable {opcodes : Opcodes} (hcovers : c.image.opcodes.Covers opcodes)

include hcovers

theorem yields_readInstruction {i j : Instruction Reference} (hi : i.opcode ∈ Opcode.table)
    (hj : i.reread c.image.resolver n = .ok j) {indexed : Instruction UInt32}
    (hindexed : (i.mapReferences fun _ r => n.indexOf r) = .ok indexed) {form : List UInt8}
    (hform : indexed.encode opcodes = (form, .ok ())) (hlength : form.length < UInt32.size) :
    Yields c.readInstruction form j := by
  rw [Instruction.reread, hindexed, ok_bind] at hj
  have hdecode := Instruction.yields_decode hcovers ((Instruction.mapReferences_eq_ok hindexed).1 ▸ hi)
    (Instruction.elementCount_lt hform hlength) hform
  exact .tell fun start => (hdecode.bind_nil (Value.yields_ofResult hj)).within _

/-- The instructions of a body are read with the references that their indices are looked up as. -/
theorem instructions_eq {is js : List (Instruction Reference)} (his : ∀ i ∈ is, i.opcode ∈ Opcode.table)
    (hjs : is.mapM (Instruction.reread c.image.resolver n) = .ok js) {indexed : List (Instruction UInt32)}
    (hindexed : (is.mapM fun i => i.mapReferences fun _ r => n.indexOf r) = .ok indexed) {code : List UInt8}
    (hcode : Instruction.encodeAll opcodes indexed = (code, .ok c.unitCount))
    (hbytes : c.image.bytes.Holds c.instructionsStart code) (hlt : 2 * c.unitCount < UInt32.size) :
    c.instructions = js.map .ok := by
  obtain ⟨forms, rfl, hforms, hunits⟩ := Instruction.exists_of_encodeFrom hcode
  have hlength : forms.flatten.length = 2 * c.unitCount := by
    rw [Instruction.length_of_encodeFrom hforms, hunits, Nat.zero_add]
  have hread : List.Forall₂ (fun form j => Yields c.readInstruction form j ∧ form ≠ []) forms js := by
    have hboth := forall₂_trans (forall₂_of_mapM hindexed) hforms
    have hpaired : List.Forall₂ (fun i form => i ∈ is ∧ form ∈ forms ∧ ∃ j, (i.mapReferences fun _ r => n.indexOf r) =
        .ok j ∧ j.encode opcodes = (form, .ok ())) is forms :=
      forall₂_imp_of_mem hboth fun i hi form hform h => ⟨hi, hform, h⟩
    refine (forall₂_trans hpaired.flip (forall₂_of_mapM hjs)).imp ?_
    rintro form j ⟨i, ⟨hi, hmem, indexed, hi', hform⟩, hj⟩
    have hshort := (List.sublist_flatten_of_mem hmem).length_le
    have hlength : form.length < UInt32.size := by omega
    exact ⟨yields_readInstruction hcovers (his i hi) hj hi' hform hlength, Instruction.encode_ne_nil hform⟩
  have hcodeBytes : c.codeBytes = forms.flatten.toArray := by
    rw [codeBytes, ← hlength]
    exact Array.toList_inj.mp hbytes.extract_eq
  have hcount := length_le_length_flatten fun form hform => by
    obtain ⟨i, -, -, hne⟩ := exists_mem_right hread hform
    exact hne
  refine instructionsFrom_eq hread ?_ ?_ ?_
  · rw [hcodeBytes]
    exact ⟨[], [], by simp, rfl⟩
  · rw [hcodeBytes]
    simp
  · omega

end instructions

/-! ## Whole items -/

/-- The head of a code item is read as it was written. -/
theorem at?_eq {image : Image} {offset units : Nat} {registers incoming outgoing tryCount : UInt16}
    {debugOffset : UInt32} {rest : List UInt8}
    (hbytes : image.bytes.Holds offset (Write.ushort registers ++ ((Write.ushort incoming ++ Write.ushort outgoing) ++
      (Write.ushort tryCount ++ (Write.uint debugOffset ++ (Write.uint (UInt32.ofNat units) ++ rest))))))
    (hdebug : debugOffset.toNat < extentBound) (hrest : 2 * units ≤ rest.length) (hlt : units < extentBound) :
    StoredCode.at? image offset = .ok ⟨image, offset, registers, tryCount.toNat, debugOffset.toNat, units⟩ := by
  have hle := hbytes.le_size
  simp only [List.length_append, Write.length_ushort, Write.length_uint] at hle
  have hunits : (UInt32.ofNat units).toNat = units := UInt32.toNat_ofNat_of_lt' (Nat.lt_trans hlt (by decide))
  simp only [← List.append_assoc] at hbytes
  refine Yields.at? ?_ hbytes.left
  simp only [List.append_assoc]
  refine (yields_ushort registers).bind ?_
  rw [← List.append_assoc]
  refine (yields_skip (by simp)).bind ((yields_ushort tryCount).bind ?_)
  refine (yields_smallUint hdebug).bind ((yields_smallUint (by omega)).bind_nil ?_)
  rw [hunits, if_neg (by unfold headSize; omega)]
  exact .pure _

/-- A code item is laid out as that of a body: the instructions are behind its head, and the
try items behind these. -/
structure LaidOut (c : StoredCode) (n : Numbering) (opcodes : Opcodes) (code : Code) (debugOffset : Nat)
    (form : List UInt8) : Prop where
  debugOffset_eq : c.debugOffset = debugOffset
  registers : c.registers = code.registers
  tryCount : c.tryCount = code.tries.length
  instructions : ∃ indexed instructions,
    (code.instructions.mapM fun i => i.mapReferences fun _ r => n.indexOf r) = .ok indexed ∧
    Instruction.encodeAll opcodes indexed = (instructions, .ok c.unitCount) ∧
    c.image.bytes.Holds c.instructionsStart instructions
  tries : ∃ tries, writeTries n c.unitCount code.tries = .ok tries ∧
    c.image.bytes.Holds (c.instructionsStart + 2 * c.unitCount) tries ∧
    form.length = headSize + 2 * c.unitCount + tries.length

namespace LaidOut

variable {opcodes : Opcodes} {code : Code} {debugOffset : Nat} {form : List UInt8}
  (h : LaidOut c n opcodes code debugOffset form) (hcovers : c.image.opcodes.Covers opcodes)
  (hlt : form.length < extentBound)

include h hcovers hlt

theorem instructions_eq_of_reread (hcode : ∀ i ∈ code.instructions, i.opcode ∈ Opcode.table)
    {is : List (Instruction Reference)}
    (his : code.instructions.mapM (Instruction.reread c.image.resolver n) = .ok is) :
    c.instructions = is.map .ok := by
  obtain ⟨indexed, instructions, hindexed, hinstructions, hheld⟩ := h.instructions
  obtain ⟨tries, -, -, hlength⟩ := h.tries
  have hbound : extentBound < UInt32.size := by decide
  exact CodeItem.instructions_eq hcovers hcode his hindexed hinstructions hheld (by omega)

/-- Sound instructions are read as they were written. -/
theorem instructions_eq (hundoes : c.image.resolver.Undoes n) (hcode : ∀ i ∈ code.instructions, i.Sound) :
    c.instructions = (code.instructions.map fun i => i.arranged.extended).map .ok := by
  obtain ⟨indexed, -, hindexed, -⟩ := h.instructions
  refine h.instructions_eq_of_reread hcovers hlt (fun i hi => (hcode i hi).opcode_mem) (mapM_ok fun i hi => ?_)
  obtain ⟨j, -, hj⟩ := exists_mem_right (forall₂_of_mapM hindexed) hi
  exact (hcode i hi).reread_eq hundoes hj

end LaidOut

/-- The head of the code item of a body is read where it stands. -/
theorem exists_laidOut {image : Image} {opcodes : Opcodes} {m : MethodDef} {code : Code} {debugOffset : UInt32}
    (hdebug : debugOffset.toNat < extentBound) {form : List UInt8} (h : encode n opcodes m code debugOffset = .ok form)
    (hlt : form.length < extentBound) {offset : Nat} (hbytes : image.bytes.Holds offset form) : ∃ c : StoredCode,
      StoredCode.at? image offset = .ok c ∧ c.image = image ∧ c.offset = offset ∧
      LaidOut c n opcodes code debugOffset.toNat form := by
  obtain ⟨indexed, instructions, units, tryCount, tries, hindexed, hinstructions, htryCount, htries, rfl⟩ :=
    exists_of_encode h
  have hlength : instructions.length = 2 * units := by
    obtain ⟨forms, rfl, hforms, hunits⟩ := Instruction.exists_of_encodeFrom hinstructions
    rw [Instruction.length_of_encodeFrom hforms, hunits, Nat.zero_add]
  have hbody := hbytes.right.right.right.right.right
  simp only [List.length_append, Write.length_ushort, Write.length_uint, Nat.add_assoc, Nat.reduceAdd] at hbody hlt
  have hlast := hbody.right
  rw [hlength] at hlast
  refine ⟨_, at?_eq hbytes hdebug (by rw [List.length_append]; omega) (by omega), rfl, rfl, rfl, rfl,
    narrow_eq_ok htryCount, ⟨indexed, instructions, hindexed, hinstructions, hbody.left⟩, tries, htries, hlast, ?_⟩
  simp only [List.length_append, Write.length_ushort, Write.length_uint, hlength, headSize]
  omega

/-- A code item that has been found is that of a body: its instructions are read as they
were written, and its try items are behind them. -/
structure Shows (c : StoredCode) (n : Numbering) (code : Code) (debugOffset : Nat) : Prop where
  debugOffset_eq : c.debugOffset = debugOffset
  registers : c.registers = code.registers
  instructions : c.instructions = (code.instructions.map fun i => i.arranged.extended).map .ok
  tryCount : c.tryCount = code.tries.length
  tries : ∃ form, writeTries n c.unitCount code.tries = .ok form ∧
    c.image.bytes.Holds (c.instructionsStart + 2 * c.unitCount) form

/-- The code item of a body is found where it stands. -/
theorem exists_at? {image : Image} {opcodes : Opcodes} (hundoes : image.resolver.Undoes n)
    (hcovers : image.opcodes.Covers opcodes) (hsize : image.bytes.size < extentBound) {m : MethodDef} {code : Code}
    (hcode : ∀ i ∈ code.instructions, i.Sound) {debugOffset : UInt32} (hdebug : debugOffset.toNat < extentBound)
    {form : List UInt8} (h : encode n opcodes m code debugOffset = .ok form) {offset : Nat}
    (hbytes : image.bytes.Holds offset form) : ∃ c : StoredCode, StoredCode.at? image offset = .ok c ∧
      c.image = image ∧ Shows c n code debugOffset.toNat := by
  have hle := hbytes.le_size
  obtain ⟨c, hat, rfl, -, hlaid⟩ := exists_laidOut hdebug h (by omega) hbytes
  obtain ⟨tries, htries, hlast, -⟩ := hlaid.tries
  exact ⟨c, hat, rfl, hlaid.debugOffset_eq, hlaid.registers,
    hlaid.instructions_eq hcovers (by omega) hundoes hcode, hlaid.tryCount, tries, htries, hlast⟩

/-- The try blocks of a body that can be read are read as the file keeps them. -/
theorem Shows.tries_eq {code : Code} {debugOffset : Nat} (h : Shows c n code debugOffset)
    (hundoes : c.image.resolver.Undoes n) (htries : ∀ t ∈ code.tries, t.Readable)
    (hsize : c.image.bytes.size < extentBound) : c.tries = .ok (code.tries.map TryBlock.inOrder) := by
  obtain ⟨form, hform, hheld⟩ := h.tries
  have hle := hheld.le_size
  exact CodeItem.tries_eq h.tryCount hform hheld hundoes.values.type htries (by omega)

end CodeItem

end Dalvik
