import Dalvik.Proofs.Code.Tries
import Dalvik.Proofs.Code.Writable
import Dalvik.Proofs.Value.Room

/-!
# The room of bodies

Whatever numbering a body is written with, its code item takes up at most `Code.room`
bytes, and its debug information at most `DebugInfo.room`.
-/

namespace Dalvik

open Result StoredCode

variable {n : Numbering}

/-! ## Debug information -/

namespace DebugInfo

/-- The bytes that debug information takes up at most: two numbers, an index for each
parameter, and for each item a step of the address and what happens there. -/
def room (parameters items : Nat) : Nat :=
  2 * Leb128.maxLength + Leb128.maxLength * parameters + 27 * items + 1

theorem length_writeString?_le {name : Option String} {form : List UInt8} (h : writeString? n name = .ok form) :
    form.length ≤ Leb128.maxLength := by
  cases name with
  | none =>
    cases h
    exact Leb128.length_encodeUnsigned _
  | some s =>
    obtain ⟨index, -, rfl⟩ := map_eq_ok h
    exact Leb128.length_encodeUnsigned _

theorem length_writeType?_le {type : Option String} {form : List UInt8} (h : writeType? n type = .ok form) :
    form.length ≤ Leb128.maxLength := by
  cases type with
  | none =>
    cases h
    exact Leb128.length_encodeUnsigned _
  | some d =>
    obtain ⟨index, -, rfl⟩ := map_eq_ok h
    exact Leb128.length_encodeUnsigned _

theorem length_advance_le {state next : DebugState} {address : UInt32} {form : List UInt8}
    (h : advance state address = .ok (form, next)) : form.length ≤ 1 + Leb128.maxLength := by
  have hstep := Leb128.length_encodeUnsigned (address - state.address)
  unfold advance at h
  split at h
  · cases h
  · split at h
    · cases h
      exact Nat.zero_le _
    · cases h
      rw [List.length_cons, Write.uleb128]
      omega

theorem length_writeLine_le {state next : DebugState} {address line : UInt32} {form : List UInt8}
    (h : writeLine state address line = .ok (form, next)) : form.length ≤ 3 + 2 * Leb128.maxLength := by
  have hline := Leb128.length_encodeSigned (line - state.line).toInt32
  have haddress := Leb128.length_encodeUnsigned (address - state.address)
  unfold writeLine at h
  split at h
  · cases h
  · cases h
    simp only [List.length_append, List.length_singleton, Write.sleb128, Write.uleb128]
    split <;> split <;> simp only [List.length_nil, List.length_cons] <;> omega

theorem length_writeEvent_le {event : DebugEvent} {form : List UInt8} (h : writeEvent n event = .ok form) :
    form.length ≤ 1 + 4 * Leb128.maxLength := by
  cases event with
  | startLocal register name type signature =>
    obtain ⟨nameForm, hname, h⟩ := bind_eq_ok h
    obtain ⟨typeForm, htype, h⟩ := bind_eq_ok h
    have hregister := Leb128.length_encodeUnsigned register
    have hname := length_writeString?_le hname
    have htype := length_writeType?_le htype
    cases signature with
    | none =>
      cases h
      simp only [List.cons_append, List.length_cons, List.length_append, List.length_nil, Write.uleb128]
      omega
    | some s =>
      obtain ⟨tail, htail, h⟩ := bind_eq_ok h
      cases h
      have htail := length_writeString?_le htail
      simp only [List.cons_append, List.length_cons, List.length_append, Write.uleb128]
      omega
  | endLocal register | restartLocal register =>
    cases h
    have hregister := Leb128.length_encodeUnsigned register
    rw [List.length_cons, Write.uleb128]
    omega
  | setFile name =>
    obtain ⟨nameForm, hname, rfl⟩ := map_eq_ok h
    have hname := length_writeString?_le hname
    rw [List.length_cons]
    omega
  | prologueEnd | epilogueBegin | line number =>
    cases h
    exact Nat.le_of_ble_eq_true rfl

/-- The step to an item and the item itself. -/
theorem length_writeItem_le {state next : DebugState} {item : DebugItem} {form : List UInt8}
    (h : writeItem n state item = .ok (form, next)) : form.length ≤ 27 := by
  unfold writeItem at h
  split at h
  · exact Nat.le_trans (length_writeLine_le h) (by decide)
  · obtain ⟨⟨move, moved⟩, hmove, h⟩ := bind_eq_ok h
    obtain ⟨event, hevent, h⟩ := bind_eq_ok h
    cases h
    rw [List.length_append]
    exact Nat.add_le_add (length_advance_le hmove) (length_writeEvent_le hevent)

theorem length_writeItems_le {state : DebugState} {items : List DebugItem} {form : List UInt8}
    (h : writeItems n state items = .ok form) : form.length ≤ 27 * items.length + 1 := by
  induction items generalizing state form with
  | nil =>
    cases h
    exact Nat.le_refl _
  | cons item items ih =>
    obtain ⟨⟨first, next⟩, hfirst, h⟩ := bind_eq_ok h
    obtain ⟨rest, hrest, h⟩ := bind_eq_ok h
    cases h
    have hfirst := length_writeItem_le hfirst
    have hrest := ih hrest
    rw [List.length_append, List.length_cons]
    omega

theorem length_encode_le {names : List (Option String)} {items : List DebugItem} {form : List UInt8}
    (h : encode n names items = .ok form) : form.length ≤ room names.length items.length := by
  obtain ⟨forms, hforms, h⟩ := bind_eq_ok h
  obtain ⟨body, hbody, h⟩ := bind_eq_ok h
  cases h
  have hline := Leb128.length_encodeUnsigned (firstLine items)
  have hcount := Leb128.length_encodeUnsigned (UInt32.ofNat names.length)
  have hnames : forms.flatten.length ≤ forms.length * Leb128.maxLength := CodeItem.length_flatten_le fun form hform => by
    obtain ⟨name, -, hname⟩ := exists_of_mem_mapM hforms hform
    exact length_writeString?_le hname
  rw [← (forall₂_of_mapM hforms).length_eq, Nat.mul_comm] at hnames
  have hitems := length_writeItems_le hbody
  simp only [List.length_append, Write.uleb128, room]
  omega

end DebugInfo

/-! ## Code items -/

/-- The bytes that the code item of a body takes up at most: its head, the instructions
with the padding behind them, and the try blocks with their handlers. Equal handlers are
written once. -/
def Code.room (c : Code) : Nat :=
  18 + 2 * c.codeUnits +
    (Leb128.maxLength + tryItemSize * c.tries.length + Handler.room (c.tries.map (·.handlers)).eraseDups)

namespace CodeItem

/-- The entries of the handlers take up at most their room. -/
theorem length_writeEntries_le {entries : List (List Handler)} {position : Nat}
    {places : List (List Handler × UInt16)} {form : List UInt8}
    (h : writeEntries n position entries = .ok (places, form)) : form.length ≤ Handler.room entries := by
  induction entries generalizing position places form with
  | nil =>
    cases h
    exact Nat.le_refl _
  | cons handlers entries ih =>
    obtain ⟨place, -, h⟩ := bind_eq_ok h
    obtain ⟨entry, hentry, h⟩ := bind_eq_ok h
    obtain ⟨⟨places, rest⟩, hrest, h⟩ := bind_eq_ok h
    cases h
    rw [List.length_append, Handler.room, List.map_cons, List.sum_cons]
    exact Nat.add_le_add (length_writeHandlers_le hentry) (ih hrest)

theorem length_writeHandlerList_le {tries : List TryBlock} {form : List UInt8} {places : List UInt16}
    (h : writeHandlerList n tries = .ok (form, places)) :
    form.length ≤ Leb128.maxLength + Handler.room (tries.map (·.handlers)).eraseDups := by
  obtain ⟨⟨table, entries⟩, hentries, h⟩ := bind_eq_ok h
  cases h
  rw [List.length_append]
  exact Nat.add_le_add (Leb128.length_encodeUnsigned _) (length_writeEntries_le hentries)

theorem length_writeTries_le {units : Nat} {tries : List TryBlock} {form : List UInt8}
    (h : writeTries n units tries = .ok form) : form.length ≤
      2 + (Leb128.maxLength + tryItemSize * tries.length + Handler.room (tries.map (·.handlers)).eraseDups) := by
  by_cases hne : tries = []
  · subst hne
    cases h
    exact Nat.zero_le _
  · obtain ⟨handlers, places, hlist, rfl⟩ := exists_of_writeTries hne h
    have hhandlers := length_writeHandlerList_le hlist
    have htries := length_writeTry_flatten (exists_of_writeHandlerList hlist)
    have hpadding : (if units % 2 = 0 then [] else Write.ushort 0).length ≤ 2 := by
      split
      · exact Nat.zero_le _
      · exact Nat.le_of_eq (Write.length_ushort _)
    rw [List.length_append, List.length_append, htries, Nat.mul_comm]
    omega

theorem length_encode_le {opcodes : Opcodes} {m : MethodDef} {code : Code} {debugOffset : UInt32} {form : List UInt8}
    (h : encode n opcodes m code debugOffset = .ok form) : form.length ≤ code.room := by
  obtain ⟨indexed, instructions, units, tryCount, tries, hindexed, hcode, -, htries, rfl⟩ := exists_of_encode h
  have hcode := (Instruction.length_encodeAll hindexed hcode).1
  have htries := length_writeTries_le htries
  simp only [List.length_append, Write.length_ushort, Write.length_uint, Code.room]
  omega

end CodeItem

end Dalvik
