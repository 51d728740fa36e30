import Dalvik.Proofs.Consuming
import Dalvik.Proofs.Leb128.Exact
import Dalvik.Proofs.StringData

/-!
# How a step comes out

What stands at an offset settles what a step does there (`Read.Outcomes`): it yields a value
just if bytes that spell the value stand there, and moves behind them; where it fails it stays,
unless it has decoded a number in front and rejects it or what follows it. Each step for a
basic type has outcomes of this kind, and which bytes spell a value is told without the step.
-/

namespace Dalvik

/-! ## Bytes that stand somewhere -/

/-- The bytes of a range stand where it begins, also if it goes beyond the end. -/
theorem Bytes.holds_extract_of_le {bytes : Bytes} {offset last : Nat} (h : offset ≤ last) (hle : offset ≤ bytes.size) :
    bytes.Holds offset (bytes.extract offset last).toList := by
  rcases Nat.le_total last bytes.size with hlast | hlast
  · exact holds_extract h hlast
  · have hrange : bytes.extract offset last = bytes.extract offset bytes.size :=
      Array.ext_getElem? fun i => by
        rw [Array.getElem?_extract, Array.getElem?_extract, Nat.min_eq_right hlast, Nat.min_self]
    exact hrange ▸ holds_extract hle (Nat.le_refl _)

theorem Bytes.holds_getElem {bytes : Bytes} {offset : Nat} (h : offset < bytes.size) :
    bytes.Holds offset [bytes[offset]] := by
  have hbyte : (bytes.extract offset (offset + 1)).toList = [bytes[offset]] := by
    have hlt : offset < bytes.toList.length := Array.length_toList ▸ h
    rw [Array.toList_extract, List.extract_eq_take_drop, Nat.add_sub_cancel_left, List.drop_eq_getElem_cons hlt,
      List.take_succ_cons, List.take_zero, Array.getElem_toList]
  exact hbyte ▸ holds_extract (Nat.le_succ offset) h

/-! ## Bytes of numbers -/

namespace LittleEndian

/-- Bytes are the form of a number of their width just if they decode to it. -/
theorem eq_encode_iff {width n : Nat} (h : n < byteBound width) {form : List UInt8} :
    form = encode width n ↔ form.length = width ∧ decode form = n := by
  constructor
  · rintro rfl
    rw [decode_encode, Nat.mod_eq_of_lt h]
    exact ⟨length_encode .., rfl⟩
  · rintro ⟨rfl, rfl⟩
    exact (encode_decode form).symm

end LittleEndian

namespace Leb128

/-- The bytes are those of one number: the last of them is the only one that ends it, and there are only a few. -/
def Terminated (form : List UInt8) : Prop :=
  ∃ groups last, form = groups ++ [last] ∧ groups.length < maxLength ∧ (∀ b ∈ groups, isLast b = false) ∧
    isLast last = true

/-- The bytes are those of an unsigned number. -/
def Spells (v : UInt32) (form : List UInt8) : Prop :=
  Terminated form ∧ v = UInt32.ofNat (groupSum form)

theorem Terminated.length_pos {form : List UInt8} (h : Terminated form) : 0 < form.length := by
  obtain ⟨groups, last, rfl, -⟩ := h
  rw [List.length_append]
  exact Nat.succ_pos _

theorem Terminated.length_le {form : List UInt8} (h : Terminated form) : form.length ≤ maxLength := by
  obtain ⟨groups, last, rfl, hlength, -⟩ := h
  rw [List.length_append]
  exact hlength

/-- The bytes of a number end it, whatever follows them. -/
theorem Terminated.endIndex?_append {form : List UInt8} (h : Terminated form) (rest : List UInt8) :
    endIndex? (form ++ rest) = some (form.length - 1) := by
  have hle := h.length_le
  obtain ⟨groups, last, rfl, hlength, hgroups, hlast⟩ := h
  rw [endIndex?, List.take_append, List.take_of_length_le hle, List.findIdx?_append, List.findIdx?_append,
    List.findIdx?_eq_none_iff.mpr hgroups]
  simp [List.findIdx?_cons, hlast]

/-- Up to the byte that ends a number the bytes are those of the number. -/
theorem terminated_of_endIndex? {bytes : List UInt8} {i : Nat} (h : endIndex? bytes = some i) :
    Terminated (bytes.take (i + 1)) ∧ (bytes.take (i + 1)).length = i + 1 := by
  obtain ⟨hlt, hlast, hgroups⟩ := List.findIdx?_eq_some_iff_getElem.mp h
  rw [List.length_take] at hlt
  have hi : i < bytes.length := by omega
  rw [List.getElem_take] at hlast
  refine ⟨⟨bytes.take i, bytes[i], List.take_succ_eq_append_getElem hi, ?_, fun b hb => ?_, hlast⟩, ?_⟩
  · rw [List.length_take]
    omega
  · obtain ⟨j, hj, rfl⟩ := List.mem_iff_getElem.mp hb
    rw [List.length_take] at hj
    have := hgroups j (by omega)
    rw [List.getElem_take] at this ⊢
    simpa using this
  · rw [List.length_take]
    omega

theorem terminated_iff {form : List UInt8} : Terminated form ↔ ∃ v, Spells v form := by
  constructor
  · intro h
    exact ⟨_, h, rfl⟩
  · rintro ⟨v, h, -⟩
    exact h

/-- What is read as the successor of a number from any bytes. -/
theorem decodeSuccessor_eq (bytes : List UInt8) : decodeSuccessor bytes =
    match endIndex? bytes with
    | some i => .ok ((UInt32.ofNat (groupSum (bytes.take (i + 1)))).toInt32 - 1, i + 1)
    | none => .error (faultOf bytes) := by
  rw [decodeSuccessor, decodeUnsigned_eq]
  cases endIndex? bytes <;> rfl

end Leb128

namespace Read

variable {α β : Type}

/-! ## Outcomes -/

/-- What stands at an offset settles how the step comes out there. It yields a value just if bytes
that spell the value stand there, and moves behind them. If it fails, it has not moved where no
lead stands, and else it has moved behind the lead. -/
structure Outcomes (step : Read α) (spells : α → List UInt8 → Prop) (leads : List UInt8 → Prop) : Prop where
  consumes : Consumes step spells
  yields : ∀ {a : α} {form : List UInt8}, spells a form → Yields step form a
  fails : ∀ {bytes : Bytes} {offset next : Nat} {e : Error}, offset ≤ bytes.size →
    step.on bytes offset = (.error e, next) → (next = offset ∧ ∀ form, bytes.Holds offset form → ¬leads form) ∨
      ∃ form, bytes.Holds offset form ∧ leads form ∧ next = offset + form.length

/-- The bytes are string data: the number of units that the text has, then what is read as the text
up to the first zero byte. -/
def SpellsString (text : String) (form : List UInt8) : Prop :=
  ∃ declared count units, form = count ++ (units ++ [0]) ∧ Leb128.Spells declared count ∧
    declared.toNat < extentBound ∧ 0 ∉ units ∧ Mutf8.decode? units = some text ∧ Utf16.length text = declared.toNat

/-- Up to the first zero byte there are others. -/
theorem holds_of_zeroFrom? {bytes : Bytes} {start last : Nat} (h : zeroFrom? bytes start = some last) :
    ∃ units, 0 ∉ units ∧ last = start + units.length ∧ bytes.Holds start (units ++ [0]) := by
  fun_induction zeroFrom? bytes start with
  | case1 start hlt hzero =>
    cases h
    exact ⟨[], List.not_mem_nil, rfl, hzero ▸ Bytes.holds_getElem hlt⟩
  | case2 start hlt hne ih =>
    obtain ⟨units, hzero, rfl, hunits⟩ := ih h
    refine ⟨bytes[start] :: units, ?_, ?_, ?_⟩
    · rw [List.mem_cons, not_or]
      exact ⟨Ne.symm hne, hzero⟩
    · rw [List.length_cons]
      omega
    · show bytes.Holds start ([bytes[start]] ++ (units ++ [0]))
      exact Bytes.Holds.append_iff.mpr ⟨Bytes.holds_getElem hlt, hunits⟩
  | case3 start hge => cases h

namespace Outcomes

variable {step : Read α} {spells : α → List UInt8 → Prop} {leads : List UInt8 → Prop}

/-- Where a step fails there is no value to read. -/
theorem absent (h : Outcomes step spells leads) {bytes : Bytes} {offset next : Nat} {e : Error}
    (he : step.on bytes offset = (.error e, next)) {a : α} {form : List UInt8} (hform : bytes.Holds offset form) :
    ¬spells a form := fun ha => by
  have hyield := h.yields ha bytes offset hform
  rw [he] at hyield
  cases hyield

/-- A step that fails at once reads nothing. -/
theorem stuck (cause : Nat → Cause) (h : ∀ bytes offset, step.on bytes offset = (.fail (cause offset), offset))
    (hspells : ∀ a form, ¬spells a form) : Outcomes step spells fun _ => False where
  consumes := fun bytes offset _ _ _ ha => nomatch (h bytes offset).symm.trans ha
  yields := fun hform => absurd hform (hspells _ _)
  fails := fun _ he => .inl ⟨(congrArg Prod.snd he).symm.trans (congrArg Prod.snd (h _ _)), fun _ _ => id⟩

/-- The bytes that spelled a value spell what is made of it. -/
theorem map (h : Outcomes step spells leads) (f : α → β) {spells' : β → List UInt8 → Prop}
    (hspells : ∀ b form, spells' b form ↔ ∃ a, spells a form ∧ f a = b) :
    Outcomes (step >>= fun a => Pure.pure (f a)) spells' leads where
  consumes := h.consumes.map f fun a form ha => (hspells _ _).mpr ⟨a, ha, rfl⟩
  yields := fun hform => by
    obtain ⟨a, ha, rfl⟩ := (hspells _ _).mp hform
    exact (h.yields ha).bind_pure f
  fails := fun {bytes offset next e} hle he => by
    rw [on_bind] at he
    split at he
    · cases he
    · rename_i e' middle hstep
      cases he
      exact h.fails hle hstep

/-- What spells a value may be told in other words. -/
theorem respelled (h : Outcomes step spells leads) {spells' : α → List UInt8 → Prop}
    (hspells : ∀ a form, spells' a form ↔ spells a form) : Outcomes step spells' leads :=
  (funext₂ fun a form => propext (hspells a form) : spells' = spells) ▸ h

theorem discard (h : Outcomes step spells leads) {spells' : Unit → List UInt8 → Prop}
    (hspells : ∀ form, spells' () form ↔ ∃ a, spells a form) : Outcomes (Functor.discard step) spells' leads := by
  rw [Functor.discard, map_const, Function.comp_apply, map_eq_pure_bind]
  exact h.map _ fun _ form => (hspells form).trans (exists_congr fun _ => (and_iff_left rfl).symm)

/-- A value that has been decoded may be rejected; the step has moved behind its bytes then. -/
theorem rejecting (h : Outcomes step spells fun _ => False) (cause : Nat → Cause) (rejected : α → Prop)
    [DecidablePred rejected] {leads : List UInt8 → Prop} (hleads : ∀ form, leads form ↔ ∃ a, spells a form) :
    Outcomes (Read.tell >>= fun start => step >>= fun a => if rejected a then Read.fail (cause start) else Pure.pure a)
      (fun a form => spells a form ∧ ¬rejected a) leads where
  consumes := .tell fun start => h.consumes.bind fun a form ha => by
    split
    · exact .fail _
    · refine .pure ⟨?_, ‹_›⟩
      rwa [List.append_nil]
  yields := fun ⟨ha, hkept⟩ => .tell fun start => (h.yields ha).bind_nil <| by
    rw [if_neg hkept]
    exact .pure _
  fails := fun {bytes offset next e} hle he => by
    rw [on_bind, on_tell] at he
    dsimp only at he
    rw [on_bind] at he
    split at he
    · rename_i a middle ha
      obtain ⟨form, hform, rfl, hspelled⟩ := h.consumes bytes offset a middle hle ha
      split at he
      · cases he
        exact .inr ⟨form, hform, (hleads form).mpr ⟨a, hspelled⟩, rfl⟩
      · cases he
    · rename_i e' middle hstep
      cases he
      obtain ⟨rfl, -⟩ | ⟨_, _, hlead, _⟩ := h.fails hle hstep
      · refine .inl ⟨rfl, fun form hform hlead => ?_⟩
        obtain ⟨a, ha⟩ := (hleads form).mp hlead
        exact h.absent hstep hform ha
      · exact hlead.elim

/-! ### Numbers of a fixed width -/

theorem take (count : Nat) (what : String) :
    Outcomes (Read.take count what) (fun v form => form = v.toList) fun _ => False where
  consumes := consumes_take count what
  yields := fun {v form} hform => by
    subst hform
    exact yields_take v.length_toList what
  fails := fun {bytes offset next e} _ he => by
    simp only [Read.take, on_bind, on_read, on_get] at he
    split at he
    · cases he
    · cases he
      exact .inl ⟨rfl, fun _ _ => id⟩

theorem skip (count : Nat) : Outcomes (Read.skip count) (fun _ form => form.length = count) fun _ => False :=
  (take count "skip").discard fun form => by
    constructor
    · intro h
      exact ⟨⟨form.toArray, by simpa using h⟩, by simp⟩
    · rintro ⟨v, rfl⟩
      exact v.length_toList

theorem number (count : Nat) (what : String) :
    Outcomes (Read.number count what) (fun n form => form.length = count ∧ LittleEndian.decode form = n)
      fun _ => False :=
  (take count what).map _ fun n form => by
    constructor
    · rintro ⟨hlength, hn⟩
      exact ⟨⟨form.toArray, by simpa using hlength⟩, by simp, by simpa using hn⟩
    · rintro ⟨v, rfl, rfl⟩
      exact ⟨v.length_toList, rfl⟩

/-- A number that fills a word. -/
theorem word {count : Nat} {what : String} {ofNat : Nat → β} {toNat : β → Nat} (hlt : ∀ v, toNat v < byteBound count)
    (hto : ∀ n < byteBound count, toNat (ofNat n) = n) (hof : ∀ v, ofNat (toNat v) = v) :
    Outcomes (Read.number count what >>= fun n => Pure.pure (ofNat n))
      (fun v form => form = LittleEndian.encode count (toNat v)) fun _ => False :=
  (number count what).map ofNat fun v form => by
    rw [LittleEndian.eq_encode_iff (hlt v)]
    constructor
    · rintro ⟨hlength, hn⟩
      exact ⟨_, ⟨hlength, hn⟩, hof v⟩
    · rintro ⟨n, ⟨rfl, rfl⟩, rfl⟩
      exact ⟨rfl, (hto _ (LittleEndian.decode_lt form)).symm⟩

theorem ubyte : Outcomes Read.ubyte (fun v form => form = Write.ubyte v) fun _ => False :=
  (number 1 "u1").map UInt8.ofNat fun v form => by
    constructor
    · rintro rfl
      exact ⟨v.toNat, ⟨rfl, rfl⟩, UInt8.ofNat_toNat⟩
    · rintro ⟨n, ⟨hlength, rfl⟩, rfl⟩
      obtain ⟨b, rfl⟩ := List.length_eq_one_iff.mp hlength
      exact congrArg (fun b => [b]) (UInt8.ofNat_toNat (x := b)).symm

/-- The numbers of a word may be told in another type. -/
theorem retyped {write : α → List UInt8} (h : Outcomes step (fun a form => form = write a) leads) {f : α → β}
    {g : β → α} (hfg : ∀ b, f (g b) = b) (hgf : ∀ a, g (f a) = a) :
    Outcomes (step >>= fun a => Pure.pure (f a)) (fun b form => form = write (g b)) leads :=
  h.map f fun b form => by
    constructor
    · intro hform
      exact ⟨g b, hform, hfg b⟩
    · rintro ⟨a, hform, rfl⟩
      rwa [hgf]

theorem byte : Outcomes Read.byte (fun v form => form = Write.ubyte v.toUInt8) fun _ => False :=
  ubyte.retyped Int8.toInt8_toUInt8 UInt8.toUInt8_toInt8

theorem ushort : Outcomes Read.ushort (fun v form => form = Write.ushort v) fun _ => False :=
  word UInt16.toNat_lt (fun _ => UInt16.toNat_ofNat_of_lt') fun _ => UInt16.ofNat_toNat

theorem short : Outcomes Read.short (fun v form => form = Write.short v) fun _ => False :=
  ushort.retyped Int16.toInt16_toUInt16 UInt16.toUInt16_toInt16

theorem uint : Outcomes Read.uint (fun v form => form = Write.uint v) fun _ => False :=
  word UInt32.toNat_lt (fun _ => UInt32.toNat_ofNat_of_lt') fun _ => UInt32.ofNat_toNat

theorem int : Outcomes Read.int (fun v form => form = Write.int v) fun _ => False :=
  uint.retyped Int32.toInt32_toUInt32 UInt32.toUInt32_toInt32

theorem ulong : Outcomes Read.ulong (fun v form => form = Write.ulong v) fun _ => False :=
  word UInt64.toNat_lt (fun _ => UInt64.toNat_ofNat_of_lt') fun _ => UInt64.ofNat_toNat

theorem long : Outcomes Read.long (fun v form => form = Write.long v) fun _ => False :=
  ulong.retyped Int64.toInt64_toUInt64 UInt64.toUInt64_toInt64

/-- A size or an offset, which may be four bytes that are no such number. -/
theorem smallUint : Outcomes Read.smallUint (fun v form => form = Write.uint v ∧ v.toNat < extentBound)
    fun form => form.length = 4 := by
  have hleads (form : List UInt8) : form.length = 4 ↔ ∃ v, form = Write.uint v := by
    constructor
    · intro h
      exact ⟨_, (Write.uint_decode h).symm⟩
    · rintro ⟨v, rfl⟩
      exact Write.length_uint v
  have h := uint.rejecting .wordOutOfRange (fun v => v.toNat ≥ extentBound) hleads
  exact h.respelled fun v form => and_congr_right' Nat.not_le.symm

/-! ### Numbers of a given size -/

theorem sizedUnsigned (size : Nat) : Outcomes (Read.sizedUnsigned size) (fun v form =>
    0 < size ∧ size ≤ 8 ∧ form.length = size ∧ v = UInt64.ofNat (LittleEndian.decode form)) fun _ => False := by
  unfold Read.sizedUnsigned
  split
  · exact stuck (.valueSize size) (fun _ _ => rfl) fun a form h => by omega
  · exact (number size "sized value").map UInt64.ofNat fun v form => by
      constructor
      · rintro ⟨-, -, hlength, rfl⟩
        exact ⟨_, ⟨hlength, rfl⟩, rfl⟩
      · rintro ⟨n, ⟨hlength, rfl⟩, rfl⟩
        exact ⟨by omega, by omega, hlength, rfl⟩

/-- What is made of a number of a given size, which has fewer bits than a word. -/
theorem sized_map (size : Nat) (f : Nat → β) :
    Outcomes (Read.sizedUnsigned size >>= fun raw => Pure.pure (f raw.toNat)) (fun b form =>
      0 < size ∧ size ≤ 8 ∧ form.length = size ∧ b = f (LittleEndian.decode form)) fun _ => False :=
  (sizedUnsigned size).map (fun raw => f raw.toNat) fun b form => by
    have hraw (hle : size ≤ 8) (hlength : form.length = size) :=
      toNat_ofNat_of_lt hle (hlength ▸ LittleEndian.decode_lt form)
    constructor
    · rintro ⟨hpos, hle, hlength, rfl⟩
      exact ⟨_, ⟨hpos, hle, hlength, rfl⟩, congrArg f (hraw hle hlength)⟩
    · rintro ⟨raw, ⟨hpos, hle, hlength, rfl⟩, rfl⟩
      exact ⟨hpos, hle, hlength, congrArg f (hraw hle hlength)⟩

theorem sizedSigned (size : Nat) : Outcomes (Read.sizedSigned size) (fun v form =>
    0 < size ∧ size ≤ 8 ∧ form.length = size ∧
      v = Int64.ofInt (Int.bmod (LittleEndian.decode form) (byteBound size))) fun _ => False :=
  sized_map size fun n => Int64.ofInt (Int.bmod n (byteBound size))

theorem sizedRight (size width : Nat) : Outcomes (Read.sizedRight size width) (fun v form =>
    0 < size ∧ size ≤ 8 ∧ size ≤ width ∧ form.length = size ∧
      v = UInt64.ofNat (LittleEndian.decode form * byteBound (width - size))) fun _ => False := by
  unfold Read.sizedRight
  split
  · exact stuck (fun _ => .valueTooWide size width) (fun _ _ => rfl) fun a form h => by omega
  · rename_i hfits
    have h := sized_map size fun n => UInt64.ofNat (n * byteBound (width - size))
    exact h.respelled fun v form => by simp only [Nat.not_lt.mp hfits, true_and]

/-! ### LEB128 numbers -/

/-- A number that is told by the groups up to the first byte that ends it. -/
theorem leb128 {decode : List UInt8 → Except Leb128.Fault (α × Nat)} (value : List UInt8 → α)
    (hdecode : ∀ bytes, decode bytes = match Leb128.endIndex? bytes with
      | some i => .ok (value (bytes.take (i + 1)), i + 1)
      | none => .error (Leb128.faultOf bytes)) (signed : Bool) (context : Nat → Context) :
    Outcomes (Read.leb128 decode signed context) (fun a form => Leb128.Terminated form ∧ a = value form)
      fun _ => False where
  consumes := fun bytes offset a next hle ha => by
    simp only [Read.leb128, on_bind, on_tell, on_read] at ha
    rw [hdecode] at ha
    split at ha
    · rename_i a' size heq
      cases ha
      split at heq
      · rename_i i hend
        cases heq
        obtain ⟨hterminated, hlength⟩ := Leb128.terminated_of_endIndex? hend
        have hall : bytes.Holds offset (bytes.extract offset (offset + Leb128.maxLength)).toList :=
          Bytes.holds_extract_of_le (Nat.le_add_right ..) hle
        rw [← List.take_append_drop (i + 1) (Array.toList _)] at hall
        exact ⟨_, hall.left, congrArg (offset + ·) hlength.symm, hterminated, rfl⟩
      · cases heq
    · cases ha
    · cases ha
  yields := fun {a form} ⟨hterminated, hvalue⟩ => by
    refine yields_leb128 hterminated.length_le (fun rest => ?_) signed context
    have hpos := hterminated.length_pos
    rw [hdecode, hterminated.endIndex?_append]
    simp only [Nat.sub_add_cancel hpos, List.take_left, hvalue]
  fails := fun {bytes offset next e} _ he => by
    simp only [Read.leb128, on_bind, on_tell, on_read] at he
    split at he
    · cases he
    · cases he
      exact .inl ⟨rfl, fun _ _ => id⟩
    · cases he
      exact .inl ⟨rfl, fun _ _ => id⟩

theorem uleb128 : Outcomes Read.uleb128 Leb128.Spells fun _ => False :=
  leb128 _ Leb128.decodeUnsigned_eq false .uleb128

theorem uleb128p1 : Outcomes Read.uleb128p1
    (fun v form => Leb128.Terminated form ∧ v = (UInt32.ofNat (Leb128.groupSum form)).toInt32 - 1) fun _ => False :=
  leb128 (fun form => (UInt32.ofNat (Leb128.groupSum form)).toInt32 - 1) Leb128.decodeSuccessor_eq false .uleb128p1

theorem sleb128 : Outcomes Read.sleb128
    (fun v form => Leb128.Terminated form ∧ v = Int32.ofInt (Leb128.signedSum form)) fun _ => False :=
  leb128 (fun form => Int32.ofInt (Leb128.signedSum form)) Leb128.decodeSigned_eq true .sleb128

/-- A size or an offset, which may be a number that is none. -/
theorem smallUleb128 : Outcomes Read.smallUleb128 (fun v form => Leb128.Spells v form ∧ v.toNat < extentBound)
    Leb128.Terminated := by
  have h := uleb128.rejecting .lebOutOfRange (fun v => v.toNat ≥ extentBound) fun _ => Leb128.terminated_iff
  exact h.respelled fun v form => and_congr_right' Nat.not_le.symm

/-! ### String data -/

/-- The number of units may be there without a text that has as many. -/
theorem stringData : Outcomes Read.stringData SpellsString Leb128.Terminated where
  consumes := fun bytes offset text next hle ha => by
    rw [Read.stringData, on_bind, on_tell] at ha
    obtain ⟨declared, first, hdeclared, ha⟩ := on_bind_eq_ok ha
    obtain ⟨count, hcount, rfl, hspells, hsmall⟩ := smallUleb128.consumes bytes offset declared first hle hdeclared
    simp only [on_bind, on_tell, on_read] at ha
    split at ha
    · cases ha
    · rename_i last hlast
      obtain ⟨units, hzero, rfl, hunits⟩ := holds_of_zeroFrom? hlast
      rw [hunits.left.extract_eq] at ha
      split at ha
      · cases ha
      · rename_i text' htext
        split at ha
        · cases ha
        · rename_i hlength
          cases ha
          refine ⟨count ++ (units ++ [0]), Bytes.Holds.append_iff.mpr ⟨hcount, hunits⟩, ?_, declared, count, units, rfl,
            hspells, hsmall, hzero, htext, not_not.mp hlength⟩
          simp only [List.length_append, List.length_singleton, Nat.add_assoc]
  yields := by
    rintro text form ⟨declared, count, units, rfl, hspells, hsmall, hzero, htext, hlength⟩ bytes offset hbytes
    have hread := smallUleb128.yields ⟨hspells, hsmall⟩ bytes offset hbytes.left
    have hlast := zeroFrom?_eq hzero hbytes.right
    simp only [Read.stringData, on_bind, on_tell, hread, on_read, hlast, hbytes.right.left.extract_eq, htext, hlength,
      ne_eq, not_true_eq_false, if_false, on_set, on_pure]
    simp only [List.length_append, List.length_singleton, Nat.add_assoc]
  fails := fun {bytes offset next e} hle he => by
    rw [Read.stringData, on_bind, on_tell] at he
    dsimp only at he
    rw [on_bind] at he
    split at he
    · rename_i declared first hdeclared
      obtain ⟨count, hcount, rfl, hspells, -⟩ := smallUleb128.consumes bytes offset declared first hle hdeclared
      refine .inr ⟨count, hcount, hspells.1, ?_⟩
      -- Whatever of the rest is rejected, the number of units is all that has been moved over.
      simp only [on_bind, on_tell, on_read] at he
      split at he
      · cases he
        rfl
      · split at he
        · cases he
          rfl
        · split at he
          · cases he
            rfl
          · cases he
    · rename_i e' middle hdeclared
      cases he
      exact smallUleb128.fails hle hdeclared

end Outcomes

end Read

end Dalvik
