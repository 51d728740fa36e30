import Dalvik.Proofs.Assembly.Lookups
import Dalvik.Proofs.Code.Tries
import Dalvik.Proofs.Instruction.Stream

/-!
# Bodies that can be written

`Code.Writable` is what the writers demand of a body. The code item of such a body
can be made wherever what it names has an index (`CodeItem.exists_encode`), and so
can its debug information (`DebugInfo.exists_encode`).
-/

namespace Dalvik

/-! ## References that fit 16 bits -/

/-- Among some entries there are no more of one kind than 16 bits can tell apart. -/
def Entry.Narrow {α : Type} (entries : List Entry) (name : α → Entry) : Prop :=
  ∀ keys : List α, keys.Nodup → (∀ key ∈ keys, name key ∈ entries) → keys.length ≤ 0x10000

/-- A list that is short is narrow for every kind. -/
theorem Entry.narrow_of_length_le {α : Type} {entries : List Entry} {name : α → Entry}
    (hname : Function.Injective name) (h : entries.length ≤ 0x10000) : Entry.Narrow entries name :=
  fun keys hkeys hmem => by
    have hsub : keys.map name ⊆ entries := fun e he => by
      obtain ⟨key, hkey, rfl⟩ := List.mem_map.mp he
      exact hmem key hkey
    have hle := (List.subperm_of_subset (hkeys.map hname) hsub).length_le
    rw [List.length_map] at hle
    exact Nat.le_trans hle h

/-- An index of 16 bits can stand for the reference. -/
def Reference.Narrow (entries : List Entry) : Reference → Prop
  | string _ => Entry.Narrow entries .string
  | type _ => Entry.Narrow entries .type
  | field _ => Entry.Narrow entries .field
  | method _ => Entry.Narrow entries .method
  | proto _ => Entry.Narrow entries .proto
  | handle _ => Entry.Narrow entries .handle
  | callSite _ => Entry.Narrow entries .callSite

/-- The numbering gives small indices to the references that 16 bits can stand for. -/
def Numbering.Narrows (n : Numbering) (entries : List Entry) : Prop :=
  ∀ r : Reference, r.Narrow entries → ∀ index, n.indexOf r = .ok index → index.toNat ≤ 0xffff

/-- The room that the entries of handlers take up at most. -/
def Handler.room (entries : List (List Handler)) : Nat :=
  (entries.map fun handlers => 5 + 10 * handlers.length).sum

/-- What the writers demand of an instruction. -/
structure Instruction.Writable (o : Opcodes) (entries : List Entry) (i : Instruction Reference) : Prop where
  check : i.check = .ok ()
  /-- The opcode has a value at the API level. -/
  value : (o.value? i.opcode).isSome
  references : ∀ r ∈ i.operands.shortReferences, r.Narrow entries

/-- What the writers demand of a body. -/
structure Code.Writable (o : Opcodes) (entries : List Entry) (c : Code) : Prop where
  instructions : ∀ i ∈ c.instructions, i.Writable o entries
  aligned : Instruction.Aligned 0 c.instructions
  tries : c.tries.length ≤ 0xffff
  /-- At most one handler of a try block is for all exceptions. -/
  catchAll : ∀ t ∈ c.tries, (t.handlers.filter (·.type.isNone)).length ≤ 1
  /-- The handlers begin at offsets of 16 bits; equal ones stand in the file once. -/
  handlers : 5 + Handler.room (c.tries.map (·.handlers)).eraseDups ≤ 0x10000
  debug : (c.debug.map (·.address)).Pairwise (· ≤ ·)

/-! ## Instructions -/

namespace Instruction

open Result

variable {o : Opcodes} {entries : List Entry} {n : Numbering}

/-- Mapping the references does not change the operands besides, and the references whose indices
are written in 16 bits are mapped in their places. -/
theorem check_of_mapReferences {ρ σ : Type} {f : ReferenceKind → ρ → Result σ} {i : Instruction ρ} {j : Instruction σ}
    (h : i.mapReferences f = .ok j) : j.check = i.check ∧ j.format = i.format ∧
      List.Forall₂ (fun r s => ∃ kind, f kind r = .ok s) i.operands.shortReferences j.operands.shortReferences := by
  obtain ⟨opcode, operands⟩ := i
  cases operands with
  | f20bc | f21c | f22c | f35c | f3rc =>
    obtain ⟨s, hs, h⟩ := bind_eq_ok h
    cases h
    exact ⟨rfl, rfl, .cons ⟨_, hs⟩ .nil⟩
  | f31c =>
    obtain ⟨s, hs, h⟩ := bind_eq_ok h
    cases h
    exact ⟨rfl, rfl, .nil⟩
  | f45cc | f4rcc =>
    obtain ⟨s, hs, h⟩ := bind_eq_ok h
    obtain ⟨p, hp, h⟩ := bind_eq_ok h
    cases h
    exact ⟨rfl, rfl, .cons ⟨_, hs⟩ (.cons ⟨_, hp⟩ .nil)⟩
  | _ =>
    cases h
    exact ⟨rfl, rfl, .nil⟩

theorem Writable.encodable (hnarrows : n.Narrows entries) {i : Instruction Reference} (hi : i.Writable o entries)
    {j : Instruction UInt32} (hj : (i.mapReferences fun _ r => n.indexOf r) = .ok j) : j.Encodable o := by
  obtain ⟨hcheck, -, hshort⟩ := check_of_mapReferences hj
  refine ⟨hcheck.trans hi.check, ?_, fun s hs => ?_⟩
  · rw [(mapReferences_eq_ok hj).1]
    exact hi.value
  · obtain ⟨r, hr, -, hindex⟩ := exists_mem_left hshort hs
    exact hnarrows r (hi.references r hr) s hindex

theorem Aligned.of_forall₂ {ρ σ : Type} {code : List (Instruction ρ)} {other : List (Instruction σ)}
    (h : List.Forall₂ (fun i j => j.format = i.format ∧ j.codeUnits = i.codeUnits) code other) {address : Nat}
    (haligned : Aligned address code) : Aligned address other := by
  induction h generalizing address with
  | nil => trivial
  | cons hij _ ih =>
    rw [Aligned] at haligned ⊢
    rw [hij.1, hij.2]
    exact ⟨haligned.1, ih haligned.2⟩

/-- Instructions whose references have indices are written. -/
theorem exists_encodeAll (hnarrows : n.Narrows entries) {code : List (Instruction Reference)}
    (hcode : ∀ i ∈ code, i.Writable o entries) (haligned : Aligned 0 code)
    (hindexes : ∀ i ∈ code, ∀ r ∈ i.references, ∀ e ∈ Entry.ofReference r, n.Indexes e) :
    ∃ indexed form units, (code.mapM fun i => i.mapReferences fun _ r => n.indexOf r) = .ok indexed ∧
      encodeAll o indexed = (form, .ok units) := by
  obtain ⟨indexed, hindexed⟩ := exists_mapM fun i hi => exists_mapReferences (hindexes i hi)
  have hall := forall₂_of_mapM hindexed
  have hencodable : ∀ j ∈ indexed, j.Encodable o := fun j hj => by
    obtain ⟨i, hi, hij⟩ := exists_of_mem_mapM hindexed hj
    exact (hcode i hi).encodable hnarrows hij
  have hkept : List.Forall₂ (fun i j : Instruction _ => j.format = i.format ∧ j.codeUnits = i.codeUnits) code indexed :=
    hall.imp fun i j hij => ⟨(check_of_mapReferences hij).2.1, (mapReferences_eq_ok hij).2.1⟩
  obtain ⟨form, units, hform⟩ := exists_encodeFrom_iff.mpr ⟨hencodable, haligned.of_forall₂ hkept⟩
  exact ⟨indexed, form, units, hindexed, hform⟩

/-- The instructions of a body are written in as many code units as they have, whatever
their references are mapped to. -/
theorem length_encodeAll {c : Code} {f : ReferenceKind → Reference → Result UInt32}
    {indexed : List (Instruction UInt32)} {form : List UInt8} {units : Nat}
    (hindexed : c.instructions.mapM (·.mapReferences f) = .ok indexed)
    (h : encodeAll o indexed = (form, .ok units)) : form.length = 2 * c.codeUnits ∧ units = c.codeUnits := by
  obtain ⟨forms, rfl, hforms, hunits⟩ := exists_of_encodeFrom h
  have hsame : c.instructions.map codeUnits = indexed.map codeUnits := by
    refine (List.forall₂_eq_eq_eq ▸ List.forall₂_map_right_iff.mpr (List.forall₂_map_left_iff.mpr ?_) :)
    exact (forall₂_of_mapM hindexed).imp fun i j hij => (mapReferences_eq_ok hij).2.1.symm
  have hcount : c.codeUnits = (indexed.map codeUnits).sum := by
    rw [← hsame, Code.codeUnits, List.sum_eq_foldr, List.foldr_map]
  exact ⟨by rw [length_of_encodeFrom hforms, hcount], by rw [hunits, hcount, Nat.zero_add]⟩

end Instruction

/-! ## Handlers -/

namespace CodeItem

open Result

variable {n : Numbering}

/-- Forms of bounded size. -/
theorem length_flatten_le {forms : List (List UInt8)} {size : Nat} (h : ∀ form ∈ forms, form.length ≤ size) :
    forms.flatten.length ≤ forms.length * size := by
  induction forms with
  | nil => exact Nat.zero_le _
  | cons form forms ih =>
    rw [List.forall_mem_cons] at h
    have := ih h.2
    rw [List.flatten_cons, List.length_append, List.length_cons, Nat.succ_mul]
    omega

theorem length_writeTyped_le {handler : Handler} {form : List UInt8} (h : writeTyped n handler = .ok form) :
    form.length ≤ 10 := by
  obtain ⟨type, address⟩ := handler
  cases type with
  | none =>
    cases h
    exact Nat.zero_le _
  | some d =>
    obtain ⟨index, -, rfl⟩ := map_eq_ok h
    have hindex := Leb128.length_encodeUnsigned index
    have haddress := Leb128.length_encodeUnsigned address
    rw [List.length_append]
    exact Nat.add_le_add hindex haddress

/-- Handlers are written if at most one of them is for all exceptions. -/
theorem exists_writeHandlers {handlers : List Handler} (hone : (handlers.filter (·.type.isNone)).length ≤ 1)
    (hindexes : ∀ handler ∈ handlers, ∀ e ∈ Entry.ofType? handler.type, n.Indexes e) :
    ∃ form, writeHandlers n handlers = .ok form := by
  obtain ⟨entries, hentries⟩ := exists_mapM (l := handlers.filter (·.type.isSome)) fun handler hhandler =>
    exists_writeTyped (hindexes handler (List.mem_filter.mp hhandler).1)
  exact ⟨_, by rw [writeHandlers]; dsimp only; rw [if_neg (by omega), hentries]; rfl⟩

/-- The entry of some handlers: their number, and two numbers for each at most. -/
theorem length_writeHandlers_le {handlers : List Handler} {form : List UInt8}
    (h : writeHandlers n handlers = .ok form) : form.length ≤ 5 + 10 * handlers.length := by
  obtain ⟨-, entries, hentries, rfl⟩ := exists_of_writeHandlers h
  have hsize := Leb128.length_encodeSigned (if (handlers.filter (·.type.isNone)).isEmpty
    then Int32.ofNat (handlers.filter (·.type.isSome)).length
    else -Int32.ofNat (handlers.filter (·.type.isSome)).length)
  have htyped : entries.flatten.length ≤ entries.length * 10 := length_flatten_le fun form hform => by
    obtain ⟨handler, -, hwritten⟩ := exists_of_mem_mapM hentries hform
    exact length_writeTyped_le hwritten
  have hcount : entries.length = (handlers.filter (·.type.isSome)).length := (forall₂_of_mapM hentries).length_eq.symm
  have hcatchAll : ((handlers.filter (·.type.isNone)).flatMap fun h => Write.uleb128 h.address).length ≤
      (handlers.filter (·.type.isNone)).length * 5 := by
    rw [List.flatMap_def, ← List.length_map fun h : Handler => Write.uleb128 h.address]
    refine length_flatten_le fun form hform => ?_
    obtain ⟨h, -, rfl⟩ := List.mem_map.mp hform
    exact Leb128.length_encodeUnsigned _
  have hsplit := List.length_eq_length_filter_add (l := handlers) (·.type.isSome)
  simp only [Option.not_isSome] at hsplit
  simp only [List.length_append]
  unfold Leb128.maxLength at hsize
  show (Leb128.encodeSigned _).length + _ + _ ≤ _
  omega

/-- The entries of handlers are written if they begin at offsets of 16 bits. -/
theorem exists_writeEntries {entries : List (List Handler)}
    (hone : ∀ handlers ∈ entries, (handlers.filter (·.type.isNone)).length ≤ 1)
    (hindexes : ∀ handlers ∈ entries, ∀ handler ∈ handlers, ∀ e ∈ Entry.ofType? handler.type, n.Indexes e)
    {position : Nat} (hroom : position + Handler.room entries ≤ 0x10000) :
    ∃ places, writeEntries n position entries = .ok places := by
  induction entries generalizing position with
  | nil => exact ⟨_, rfl⟩
  | cons handlers entries ih =>
    rw [List.forall_mem_cons] at hone hindexes
    rw [Handler.room, List.map_cons, List.sum_cons, ← Handler.room] at hroom
    obtain ⟨entry, hentry⟩ := exists_writeHandlers hone.1 hindexes.1
    have hlength := length_writeHandlers_le hentry
    have hnext : position + entry.length + Handler.room entries ≤ 0x10000 := by omega
    obtain ⟨places, hplaces⟩ := ih hone.2 hindexes.2 hnext
    exact ⟨_, by rw [writeEntries, narrow, if_neg (by omega), ok_bind, hentry, ok_bind, hplaces]; rfl⟩

/-- The code item of a body can be made. -/
theorem exists_encode {o : Opcodes} {entries : List Entry} (hnarrows : n.Narrows entries) {c : Code}
    (hc : c.Writable o entries) (hindexes : ∀ e ∈ Entry.ofCode c, n.Indexes e) (m : MethodDef) (debugOffset : UInt32) :
    ∃ form, encode n o m c debugOffset = .ok form := by
  simp only [Entry.ofCode, List.mem_append, List.mem_flatMap] at hindexes
  obtain ⟨indexed, code, units, hindexed, hcode⟩ := Instruction.exists_encodeAll hnarrows hc.instructions hc.aligned
    fun i hi r hr e he => hindexes e (.inl (.inl ⟨i, hi, r, hr, he⟩))
  obtain ⟨tries, htries⟩ : ∃ tries, writeTries n units c.tries = .ok tries := by
    cases hnone : c.tries.isEmpty with
    | true => exact ⟨_, by rw [writeTries, if_pos hnone]; rfl⟩
    | false =>
      have hhead := Leb128.length_encodeUnsigned (UInt32.ofNat (c.tries.map (·.handlers)).eraseDups.length)
      have hroom := hc.handlers
      unfold Leb128.maxLength at hhead
      have hentry {handlers : List Handler} (h : handlers ∈ (c.tries.map (·.handlers)).eraseDups) :
          ∃ t ∈ c.tries, t.handlers = handlers := List.mem_map.mp (List.mem_eraseDups.mp h)
      have hstart : (Write.uleb128 (UInt32.ofNat (c.tries.map (·.handlers)).eraseDups.length)).length +
          Handler.room (c.tries.map (·.handlers)).eraseDups ≤ 0x10000 := Nat.le_trans (Nat.add_le_add_right hhead _) hroom
      obtain ⟨places, hplaces⟩ := exists_writeEntries (n := n) (fun handlers hhandlers => by
          obtain ⟨t, ht, rfl⟩ := hentry hhandlers
          exact hc.catchAll t ht)
        (fun handlers hhandlers handler hhandler e he => by
          obtain ⟨t, ht, rfl⟩ := hentry hhandlers
          exact hindexes e (.inl (.inr ⟨t, ht, handler, hhandler, he⟩))) hstart
      exact ⟨_, by rw [writeTries, hnone, writeHandlerList]; dsimp only; rw [hplaces]; rfl⟩
  exact ⟨_, by
    rw [encode, hindexed, ok_bind, hcode]
    dsimp only
    rw [ok_bind, narrow, if_neg (Nat.not_lt.mpr hc.tries), ok_bind, htries]
    rfl⟩

end CodeItem

/-! ## Debug information -/

namespace DebugInfo

open Result

variable {n : Numbering}

/-- An item at an address that is not behind the last one is written. -/
theorem exists_writeItem {item : DebugItem} (hindexes : ∀ e ∈ Entry.ofDebugEvent item.event, n.Indexes e)
    {state : DebugState} (hle : state.address ≤ item.address) :
    ∃ form next, writeItem n state item = .ok (form, next) ∧ next.address = item.address := by
  obtain ⟨form, hform⟩ := exists_writeEvent hindexes
  have hnot : ¬item.address < state.address := UInt32.not_lt.mpr hle
  unfold writeItem
  split
  · exact ⟨_, _, by rw [writeLine, if_neg hnot], rfl⟩
  · rw [advance, if_neg hnot]
    split
    · rename_i heq
      exact ⟨_, _, by rw [ok_bind, hform]; rfl, heq.symm⟩
    · exact ⟨_, _, by rw [ok_bind, hform]; rfl, rfl⟩

theorem exists_writeItems {items : List DebugItem}
    (hindexes : ∀ item ∈ items, ∀ e ∈ Entry.ofDebugEvent item.event, n.Indexes e) {state : DebugState}
    (horder : (state.address :: items.map (·.address)).Pairwise (· ≤ ·)) :
    ∃ form, writeItems n state items = .ok form := by
  induction items generalizing state with
  | nil => exact ⟨_, rfl⟩
  | cons item items ih =>
    rw [List.forall_mem_cons] at hindexes
    rw [List.map_cons, List.pairwise_cons] at horder
    obtain ⟨form, next, hitem, hnext⟩ := exists_writeItem hindexes.1 (horder.1 item.address List.mem_cons_self)
    obtain ⟨rest, hrest⟩ := ih hindexes.2 (hnext ▸ horder.2)
    exact ⟨_, by rw [writeItems, hitem, ok_bind]; dsimp only; rw [hrest]; rfl⟩

/-- The debug information of a body is written if its items come in order. -/
theorem exists_encode {names : List (Option String)} {items : List DebugItem}
    (hnames : ∀ name ∈ names, ∀ e ∈ Entry.ofString? name, n.Indexes e)
    (hitems : ∀ item ∈ items, ∀ e ∈ Entry.ofDebugEvent item.event, n.Indexes e)
    (horder : (items.map (·.address)).Pairwise (· ≤ ·)) : ∃ form, encode n names items = .ok form := by
  obtain ⟨forms, hforms⟩ := exists_mapM fun name hname => exists_writeString? (hnames name hname)
  have hstart : ((⟨0, firstLine items⟩ : DebugState).address :: items.map (·.address)).Pairwise (· ≤ ·) :=
    List.pairwise_cons.mpr ⟨fun _ _ => UInt32.zero_le, horder⟩
  obtain ⟨body, hbody⟩ := exists_writeItems hitems hstart
  exact ⟨_, by rw [encode, hforms, ok_bind, hbody]; rfl⟩

end DebugInfo

end Dalvik
