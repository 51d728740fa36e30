import Dalvik.Proofs.Assembly.Lowering
import Dalvik.Proofs.Class.KeptEntries
import Dalvik.Proofs.Instruction.Decoded
import Mathlib.Data.List.Basic

/-!
# Bodies that are given back make no longer code items

A body that a file gives back has as many code units as the body that was written, and
its handlers may be shared by more try blocks: two lists of handlers that differ in their
order only become one. So with smaller indices its code item can be made wherever that of
the body could, and takes up no more room (`CodeItem.leads_encode`).
-/

namespace Dalvik

open Result (Leads)

variable {n m : Numbering}

/-! ## Lists without repetitions -/

section eraseDups

variable {α β : Type} [BEq α] [LawfulBEq α] [BEq β] [LawfulBEq β]

omit [BEq β] [LawfulBEq β] in
theorem eraseDups_filter (p : α → Bool) (l : List α) : (l.filter p).eraseDups = l.eraseDups.filter p := by
  induction hlength : l.length using Nat.strong_induction_on generalizing l with
  | _ length ih =>
    cases l with
    | nil => rfl
    | cons a l =>
      have hshorter : (l.filter fun b => !b == a).length < length := by
        have := List.length_filter_le (fun b => !b == a) l
        rw [List.length_cons] at hlength
        omega
      have hrest := ih _ hshorter _ rfl
      rw [List.eraseDups_cons]
      by_cases ha : p a = true
      · rw [List.filter_cons_of_pos ha, List.filter_cons_of_pos ha, List.eraseDups_cons, ← hrest,
          List.filter_filter, List.filter_filter]
        simp only [Bool.and_comm]
      · rw [List.filter_cons_of_neg ha, List.filter_cons_of_neg ha, ← hrest, List.filter_filter]
        refine congrArg List.eraseDups (List.filter_congr fun b _ => ?_)
        by_cases hb : b = a
        · simp [hb, ha]
        · simp [hb]

omit [BEq β] [LawfulBEq β] in
theorem eraseDups_sublist (l : List α) : l.eraseDups.Sublist l := by
  induction l with
  | nil => exact .refl _
  | cons a l ih =>
    rw [List.eraseDups_cons, eraseDups_filter]
    exact (List.filter_sublist.trans ih).cons_cons a

/-- What is mapped to the same is kept once. -/
theorem eraseDups_map_sublist (f : α → β) (l : List α) : (l.map f).eraseDups.Sublist (l.eraseDups.map f) := by
  induction l with
  | nil => exact .refl _
  | cons a l ih =>
    have hothers : (l.eraseDups.filter fun b => !f b == f a) =
        (l.eraseDups.filter fun b => !b == a).filter fun b => !f b == f a := by
      rw [List.filter_filter]
      refine List.filter_congr fun b _ => ?_
      by_cases hb : b = a <;> simp [hb]
    rw [List.map_cons, List.eraseDups_cons, List.eraseDups_cons, List.map_cons, eraseDups_filter, eraseDups_filter]
    refine ((ih.filter _).trans ?_).cons_cons _
    rw [List.filter_map]
    exact (show (l.eraseDups.filter fun b => !f b == f a).Sublist _ from hothers ▸ List.filter_sublist).map f

end eraseDups

/-! ## Instructions -/

namespace Instruction

open Result

theorem check_extended {ρ : Type} {i : Instruction ρ} (h : i.check = .ok ()) : i.extended.check = .ok () := by
  obtain ⟨hformat, hcheck⟩ := check_eq_ok.mp h
  obtain ⟨opcode, operands⟩ := i
  cases operands with
  | arrayData width elements =>
    have hwidth := (Operands.checkElements_eq_ok.mp hcheck).1
    refine check_eq_ok.mpr ⟨hformat, Operands.checkElements_eq_ok.mpr ⟨hwidth, List.forall_mem_map.mpr fun e _ => ?_⟩⟩
    exact Operands.fitsWidth_low hwidth e.toInt
  | _ => exact h

theorem format_extended {ρ : Type} (i : Instruction ρ) : i.extended.format = i.format := by
  obtain ⟨opcode, operands⟩ := i
  cases operands <;> rfl

theorem shortReferences_extended {ρ : Type} (i : Instruction ρ) :
    i.extended.operands.shortReferences = i.operands.shortReferences := by
  obtain ⟨opcode, operands⟩ := i
  cases operands <;> rfl

variable {o o' : Opcodes}

/-- An instruction that is given back can be written with smaller indices. -/
theorem encodable_extended (h : n.Lowers m) (hcovers : o'.Covers o) {i : Instruction Reference}
    (hopcode : i.opcode ∈ Opcode.table) {j j' : Instruction UInt32}
    (hj : (i.mapReferences fun _ r => n.indexOf r) = .ok j)
    (hj' : (i.extended.mapReferences fun _ r => m.indexOf r) = .ok j') (hencodable : j.Encodable o) :
    j'.Encodable o' := by
  obtain ⟨hcheck, -, hshort⟩ := check_of_mapReferences hj
  obtain ⟨hcheck', -, hshort'⟩ := check_of_mapReferences hj'
  refine ⟨hcheck'.trans (check_extended (hcheck.symm.trans hencodable.check)), ?_, fun s hs => ?_⟩
  · have hvalue := hencodable.value
    rw [(mapReferences_eq_ok hj).1] at hvalue
    rw [(mapReferences_eq_ok hj').1]
    have hexists : i.opcode.existsAt o.api = true := by
      by_contra hnot
      rw [Opcodes.value?, Opcode.valueAt?, if_neg hnot] at hvalue
      cases hvalue
    show (o'.value? i.opcode).isSome = true
    rw [Opcodes.value?, Opcode.valueAt?, if_pos (hcovers hopcode hexists)]
    rfl
  · obtain ⟨r, hr, -, hindex⟩ := exists_mem_left hshort' hs
    rw [i.shortReferences_extended] at hr
    obtain ⟨index, hmem, -, hlarger⟩ := exists_mem_right hshort hr
    exact Nat.le_trans (UInt32.le_iff_toNat_le.mp (h.le hlarger hindex)) (hencodable.references index hmem)

/-- Instructions that are given back take up as many code units. -/
theorem leads_encodeAll (h : n.Lowers m) (hcovers : o'.Covers o) {code : List (Instruction Reference)}
    (hopcodes : ∀ i ∈ code, i.opcode ∈ Opcode.table)
    (hindexes : ∀ i ∈ code, ∀ r ∈ i.references, ∀ e ∈ Entry.ofReference r, m.Indexes e)
    {indexed : List (Instruction UInt32)} (hindexed : (code.mapM fun i => i.mapReferences fun _ r => n.indexOf r) = .ok indexed)
    {form : List UInt8} {units : Nat} (hform : encodeAll o indexed = (form, .ok units)) :
    ∃ indexed' form', ((code.map extended).mapM fun i => i.mapReferences fun _ r => m.indexOf r) = .ok indexed' ∧
      encodeAll o' indexed' = (form', .ok units) ∧ form'.length = form.length := by
  obtain ⟨indexed', hindexed'⟩ := exists_mapM (l := code.map extended) (f := fun i => i.mapReferences fun _ r => m.indexOf r)
    (List.forall_mem_map.mpr fun i hi => exists_mapReferences (by rw [i.references_extended]; exact hindexes i hi))
  have hall := forall₂_of_mapM hindexed
  have hall' := List.forall₂_map_left_iff.mp (forall₂_of_mapM hindexed')
  have hboth : List.Forall₂ (fun j j' : Instruction UInt32 => ∃ i, i ∈ code ∧
      (i.mapReferences fun _ r => n.indexOf r) = .ok j ∧
      (i.extended.mapReferences fun _ r => m.indexOf r) = .ok j') indexed indexed' :=
    (forall₂_trans (forall₂_imp_of_mem hall fun i hi _ _ hij => And.intro hi hij).flip hall').imp
      fun j j' ⟨i, ⟨hi, hij⟩, hij'⟩ => ⟨i, hi, hij, hij'⟩
  have hsame : List.Forall₂ (fun j j' : Instruction UInt32 => j'.format = j.format ∧ j'.codeUnits = j.codeUnits)
      indexed indexed' := hboth.imp fun j j' ⟨i, _, hij, hij'⟩ => by
    rw [(check_of_mapReferences hij).2.1, (check_of_mapReferences hij').2.1, (mapReferences_eq_ok hij).2.1,
      (mapReferences_eq_ok hij').2.1]
    exact ⟨i.format_extended, i.operands.codeUnits_extended⟩
  obtain ⟨hencodable, haligned⟩ := exists_encodeFrom_iff.mp ⟨form, units, hform⟩
  have hencodable' : ∀ j' ∈ indexed', j'.Encodable o' := fun j' hj' => by
    obtain ⟨j, hj, i, hi, hij, hij'⟩ := exists_mem_left hboth hj'
    exact encodable_extended h hcovers (hopcodes i hi) hij hij' (hencodable j hj)
  obtain ⟨form', units', hform'⟩ := exists_encodeFrom_iff.mpr ⟨hencodable', haligned.of_forall₂ hsame⟩
  have hunits : (indexed'.map codeUnits).sum = (indexed.map codeUnits).sum := by
    refine congrArg List.sum (List.forall₂_eq_eq_eq ▸ ?_ : indexed'.map codeUnits = indexed.map codeUnits)
    exact List.forall₂_map_left_iff.mpr (List.forall₂_map_right_iff.mpr (hsame.imp fun _ _ heq => heq.2).flip)
  obtain ⟨forms, rfl, hforms, rfl⟩ := exists_of_encodeFrom hform
  obtain ⟨forms', rfl, hforms', rfl⟩ := exists_of_encodeFrom hform'
  refine ⟨indexed', _, hindexed', hunits ▸ hform', ?_⟩
  rw [length_of_encodeFrom hforms, length_of_encodeFrom hforms', hunits]

end Instruction

/-! ## Handlers -/

namespace CodeItem

theorem leads_writeTyped (h : n.Lowers m) {handler : Handler} (hindexes : ∀ e ∈ Entry.ofType? handler.type, m.Indexes e) :
    Leads Shortens (writeTyped n handler) (writeTyped m handler) := by
  obtain ⟨type, address⟩ := handler
  cases type with
  | none => exact .ok .rfl
  | some d =>
    have hd : m.Indexes (.type d) := hindexes (.type d) (List.mem_append_left _ (Entry.type_mem_ofType d))
    exact (h.leads_type hd).map fun _ _ hij => (Shortens.uleb128 hij.2).append .rfl

/-- Handlers are written in order. -/
theorem writeHandlers_inOrder (n : Numbering) (handlers : List Handler) :
    writeHandlers n (Handler.inOrder handlers) = writeHandlers n handlers := by
  unfold writeHandlers
  rw [Handler.filter_isSome_inOrder, Handler.filter_isNone_inOrder]

theorem leads_writeHandlers (h : n.Lowers m) {handlers : List Handler}
    (hindexes : ∀ handler ∈ handlers, ∀ e ∈ Entry.ofType? handler.type, m.Indexes e) :
    Leads Shortens (writeHandlers n handlers) (writeHandlers m (Handler.inOrder handlers)) := by
  rw [writeHandlers_inOrder]
  unfold writeHandlers
  dsimp only
  split
  · exact fun _ hform => nomatch hform
  · refine (Leads.mapM_same fun handler hhandler => ?_).bind fun _ _ hentries =>
      .ok ((Shortens.rfl.append (.flatten hentries)).append .rfl)
    exact leads_writeTyped h (hindexes handler (List.mem_filter.mp hhandler).1)

/-- The places of fewer entries are not behind those of all. -/
theorem leads_writeEntries (h : n.Lowers m) {entries entries' : List (List Handler)} (hsub : entries'.Sublist entries)
    (hindexes : ∀ handlers ∈ entries, ∀ handler ∈ handlers, ∀ e ∈ Entry.ofType? handler.type, m.Indexes e)
    {position position' : Nat} (hle : position' ≤ position) :
    Leads (fun written written' => Shortens written.2 written'.2) (writeEntries n position entries)
      (writeEntries m position' (entries'.map Handler.inOrder)) := by
  induction hsub generalizing position position' with
  | slnil => exact .ok .rfl
  | @cons entries' entries handlers _ ih =>
    rw [List.forall_mem_cons] at hindexes
    intro written hwritten
    obtain ⟨place, -, hwritten⟩ := Result.bind_eq_ok hwritten
    obtain ⟨entry, -, hwritten⟩ := Result.bind_eq_ok hwritten
    obtain ⟨rest, hrest, hwritten⟩ := Result.bind_eq_ok hwritten
    cases hwritten
    obtain ⟨written', hwritten', hshort⟩ := ih hindexes.2 (Nat.le_trans hle (Nat.le_add_right _ entry.length)) rest hrest
    refine ⟨written', hwritten', Nat.le_trans hshort ?_⟩
    exact (List.length_append ▸ Nat.le_add_left rest.2.length entry.length : rest.2.length ≤ (entry ++ rest.2).length)
  | @cons_cons entries' entries handlers _ ih =>
    rw [List.forall_mem_cons] at hindexes
    have hplace : Leads (fun _ _ : UInt16 => True) (narrow "handler offset" position)
        (narrow "handler offset" position') := fun place hplace => by
      unfold narrow at hplace ⊢
      split at hplace
      · cases hplace
      · exact ⟨_, if_neg (by omega), trivial⟩
    refine hplace.bind fun _ _ _ => (leads_writeHandlers h hindexes.1).bind fun entry entry' hentry => ?_
    refine (ih hindexes.2 (Nat.add_le_add hle hentry)).bind fun rest rest' hrest => ?_
    exact .ok (hentry.append hrest)

/-! ## Try blocks -/

/-- The entry of a try block takes up eight bytes, wherever its handlers are. -/
theorem shortens_flatten_writeTry {tries tries' : List TryBlock} (h : tries'.length = tries.length)
    {places places' : List UInt16} (hplaces : places.length = tries.length) (hplaces' : places'.length = tries.length) :
    Shortens (tries.zipWith writeTry places).flatten (tries'.zipWith writeTry places').flatten := by
  refine .flatten (List.forall₂_iff_get.mpr ⟨by simp [h, hplaces, hplaces'], fun i hi hi' => ?_⟩)
  rw [List.get_eq_getElem, List.get_eq_getElem, List.getElem_zipWith, List.getElem_zipWith]
  exact Nat.le_refl 8

theorem leads_writeHandlerList (h : n.Lowers m) {tries : List TryBlock} (hcount : tries.length ≤ 0xffff)
    (hindexes : ∀ t ∈ tries, ∀ handler ∈ t.handlers, ∀ e ∈ Entry.ofType? handler.type, m.Indexes e) :
    Leads (fun written written' => Shortens written.1 written'.1 ∧ written.2.length = tries.length ∧
        written'.2.length = tries.length)
      (writeHandlerList n tries) (writeHandlerList m (tries.map TryBlock.inOrder)) := by
  have hlists : (tries.map TryBlock.inOrder).map (·.handlers) = (tries.map (·.handlers)).map Handler.inOrder := by
    rw [List.map_map, List.map_map]
    rfl
  obtain ⟨entries', hsub, hentries⟩ := List.sublist_map_iff.mp
    (eraseDups_map_sublist Handler.inOrder (tries.map (·.handlers)))
  have hfewer : entries'.length ≤ (tries.map (·.handlers)).eraseDups.length := hsub.length_le
  have hfew : (tries.map (·.handlers)).eraseDups.length ≤ 0xffff := by
    have hle := (eraseDups_sublist (tries.map (·.handlers))).length_le
    rw [List.length_map] at hle
    exact Nat.le_trans hle hcount
  have hhead : Shortens (Write.uleb128 (UInt32.ofNat (tries.map (·.handlers)).eraseDups.length))
      (Write.uleb128 (UInt32.ofNat entries'.length)) := by
    have hbound : 0xffff < UInt32.size := by decide
    refine .uleb128 (UInt32.le_iff_toNat_le.mpr ?_)
    rw [UInt32.toNat_ofNat_of_lt' (by omega), UInt32.toNat_ofNat_of_lt' (by omega)]
    exact hfewer
  unfold writeHandlerList
  dsimp only
  rw [hlists, hentries, List.length_map]
  refine (leads_writeEntries h hsub (fun handlers hhandlers => ?_) hhead).bind fun written written' hshort => ?_
  · obtain ⟨t, ht, rfl⟩ := List.mem_map.mp (List.mem_eraseDups.mp hhandlers)
    exact hindexes t ht
  · exact .ok ⟨hhead.append hshort, by simp, by simp⟩

theorem leads_writeTries (h : n.Lowers m) (units : Nat) {tries : List TryBlock} (hcount : tries.length ≤ 0xffff)
    (hindexes : ∀ t ∈ tries, ∀ handler ∈ t.handlers, ∀ e ∈ Entry.ofType? handler.type, m.Indexes e) :
    Leads Shortens (writeTries n units tries) (writeTries m units (tries.map TryBlock.inOrder)) := by
  unfold writeTries
  rw [List.isEmpty_map]
  split
  · exact .ok .rfl
  · refine (leads_writeHandlerList h hcount hindexes).bind fun written written' ⟨hshort, hplaces, hplaces'⟩ => ?_
    refine .ok ((Shortens.rfl.append (shortens_flatten_writeTry ?_ hplaces hplaces')).append hshort)
    rw [List.length_map]

/-! ## Code items -/

/-- The code item of a body that is given back. -/
theorem leads_encode (h : n.Lowers m) {o o' : Opcodes} (hcovers : o'.Covers o) {c : Code}
    (hopcodes : ∀ i ∈ c.instructions, i.opcode ∈ Opcode.table) (hindexes : ∀ e ∈ Entry.ofCode c, m.Indexes e)
    (method method' : MethodDef) (debugOffset debugOffset' : UInt32) :
    Leads Shortens (encode n o method c debugOffset) (encode m o' method' c.kept debugOffset') := by
  simp only [Entry.ofCode, List.mem_append, List.mem_flatMap] at hindexes
  intro form hform
  obtain ⟨indexed, hindexed, hform⟩ := Result.bind_eq_ok hform
  cases hcode : Instruction.encodeAll o indexed with
  | mk code outcome =>
    rw [hcode] at hform
    obtain ⟨units, rfl, hrest⟩ := Result.bind_eq_ok hform
    obtain ⟨count, hcount, hrest⟩ := Result.bind_eq_ok hrest
    obtain ⟨tries, htries, hrest⟩ := Result.bind_eq_ok hrest
    cases hrest
    have hfew : c.tries.length ≤ 0xffff := by
      unfold narrow at hcount
      split at hcount
      · cases hcount
      · omega
    obtain ⟨indexed', code', hindexed', hcode', hlength⟩ := Instruction.leads_encodeAll h hcovers hopcodes
      (fun i hi r hr e he => hindexes e (.inl (.inl ⟨i, hi, r, hr, he⟩))) hindexed hcode
    obtain ⟨tries', htries', hshort⟩ := leads_writeTries h units hfew
      (fun t ht handler hhandler e he => hindexes e (.inl (.inr ⟨t, ht, handler, hhandler, he⟩))) tries htries
    refine ⟨_, by
      rw [encode, Code.kept]
      dsimp only
      rw [hindexed', Result.ok_bind, hcode']
      dsimp only
      rw [Result.ok_bind, List.length_map, hcount, Result.ok_bind, htries']
      rfl, ?_⟩
    exact Shortens.append (Shortens.append (Nat.le_refl 16) hlength.le) hshort

end CodeItem

end Dalvik
