import Mathlib.Data.List.Induction
import Dalvik.Proofs.Cursor.Outcomes

/-!
# A cursor stays within its bytes

A cursor over fixed bytes is asked for one thing after the other, also after failures. Every
request has one of a few effects (`Cursor.Effect`): a value is read from the bytes that spell
it and the cursor moves behind them, a failure leaves the cursor where it was unless a number
has been decoded and rejected, and nothing that is peeked at moves it. Hence the cursor is
within the bytes whatever it is asked for (`Cursor.confined_after`).
-/

namespace Dalvik.Cursor

/-! ## Readings -/

/-- What can be read where a cursor stands; bytes may be moved over unread. -/
inductive Reading where
  | ubyte | byte | ushort | short | uint | int | ulong | long
  /-- A `uint` that is a size or an offset. -/
  | smallUint
  | uleb128 | uleb128p1 | sleb128
  /-- An unsigned LEB128 number that is a size or an offset. -/
  | smallUleb128
  /-- An unsigned LEB128 number whose value is dropped. -/
  | skipUleb128
  | sizedUnsigned (size : Nat)
  | sizedSigned (size : Nat)
  | sizedRight (size width : Nat)
  | bytes (count : Nat)
  | skip (count : Nat)
  | stringData

namespace Reading

/-- The type of what is read. -/
abbrev Value : Reading → Type
  | ubyte => UInt8
  | byte => Int8
  | ushort => UInt16
  | short => Int16
  | uint | smallUint | uleb128 | smallUleb128 => UInt32
  | int | uleb128p1 | sleb128 => Int32
  | ulong | sizedUnsigned _ | sizedRight _ _ => UInt64
  | long | sizedSigned _ => Int64
  | bytes count => Vector UInt8 count
  | skipUleb128 | skip _ => Unit
  | stringData => String

/-- The step that reads. -/
def step : (r : Reading) → Read r.Value
  | ubyte => Read.ubyte
  | byte => Read.byte
  | ushort => Read.ushort
  | short => Read.short
  | uint => Read.uint
  | int => Read.int
  | ulong => Read.ulong
  | long => Read.long
  | smallUint => Read.smallUint
  | uleb128 => Read.uleb128
  | uleb128p1 => Read.uleb128p1
  | sleb128 => Read.sleb128
  | smallUleb128 => Read.smallUleb128
  | skipUleb128 => discard Read.uleb128
  | sizedUnsigned size => Read.sizedUnsigned size
  | sizedSigned size => Read.sizedSigned size
  | sizedRight size width => Read.sizedRight size width
  | bytes count => Read.bytes count
  | skip count => Read.skip count
  | stringData => Read.stringData

/-- The bytes are those that the value is decoded from. -/
def Spells : (r : Reading) → r.Value → List UInt8 → Prop
  | ubyte, v, form => form = Write.ubyte v
  | byte, v, form => form = Write.ubyte v.toUInt8
  | ushort, v, form => form = Write.ushort v
  | short, v, form => form = Write.short v
  | uint, v, form => form = Write.uint v
  | int, v, form => form = Write.int v
  | ulong, v, form => form = Write.ulong v
  | long, v, form => form = Write.long v
  | smallUint, v, form => form = Write.uint v ∧ v.toNat < extentBound
  | uleb128, v, form => Leb128.Spells v form
  | uleb128p1, v, form => Leb128.Terminated form ∧ v = (UInt32.ofNat (Leb128.groupSum form)).toInt32 - 1
  | sleb128, v, form => Leb128.Terminated form ∧ v = Int32.ofInt (Leb128.signedSum form)
  | smallUleb128, v, form => Leb128.Spells v form ∧ v.toNat < extentBound
  | skipUleb128, _, form => Leb128.Terminated form
  | sizedUnsigned size, v, form =>
    0 < size ∧ size ≤ 8 ∧ form.length = size ∧ v = UInt64.ofNat (LittleEndian.decode form)
  | sizedSigned size, v, form => 0 < size ∧ size ≤ 8 ∧ form.length = size ∧
    v = Int64.ofInt (Int.bmod (LittleEndian.decode form) (byteBound size))
  | sizedRight size width, v, form => 0 < size ∧ size ≤ 8 ∧ size ≤ width ∧ form.length = size ∧
    v = UInt64.ofNat (LittleEndian.decode form * byteBound (width - size))
  | bytes _, v, form => form = v.toList
  | skip count, _, form => form.length = count
  | stringData, v, form => Read.SpellsString v form

/-- The bytes are a number that is decoded before it, or what follows it, is rejected: one that has
to be a size or an offset, or the number of units of string data. -/
def Leads : Reading → List UInt8 → Prop
  | smallUint, form => form.length = 4
  | smallUleb128, form => Leb128.Terminated form
  | stringData, form => Leb128.Terminated form
  | _, _ => False

theorem outcomes (r : Reading) : r.step.Outcomes r.Spells r.Leads := by
  cases r with
  | ubyte => exact .ubyte
  | byte => exact .byte
  | ushort => exact .ushort
  | short => exact .short
  | uint => exact .uint
  | int => exact .int
  | ulong => exact .ulong
  | long => exact .long
  | smallUint => exact .smallUint
  | uleb128 => exact .uleb128
  | uleb128p1 => exact .uleb128p1
  | sleb128 => exact .sleb128
  | smallUleb128 => exact .smallUleb128
  | skipUleb128 => exact Read.Outcomes.uleb128.discard fun form => Leb128.terminated_iff
  | sizedUnsigned size => exact .sizedUnsigned size
  | sizedSigned size => exact .sizedSigned size
  | sizedRight size width => exact .sizedRight size width
  | bytes count => exact .take count "byte array"
  | skip count => exact .skip count
  | stringData => exact .stringData

end Reading

/-! ## Requests -/

/-- What a cursor can be asked for. What is peeked at may be any other request. -/
inductive Request where
  | read (r : Reading)
  | seek (target : Nat)
  | tell
  | remaining
  | peek (inner : Request)

namespace Request

/-- The type of what is answered. -/
abbrev Value : Request → Type
  | read r => r.Value
  | seek _ => Unit
  | tell | remaining => Nat
  | peek inner => inner.Value

/-- The step that a request is for. -/
def step : (r : Request) → Read r.Value
  | read r => r.step
  | seek target => Read.seek target
  | tell => Read.tell
  | remaining => Read.remaining
  | peek inner => Read.peek inner.step

end Request

/-- Where a cursor stands after some requests, at the first byte to begin with. A request that
fails does not keep others from being made. -/
def after (bytes : Bytes) (requests : List Request) : Nat :=
  requests.foldl (fun offset r => (r.step.on bytes offset).2) 0

theorem after_concat (bytes : Bytes) (requests : List Request) (r : Request) :
    after bytes (requests ++ [r]) = (r.step.on bytes (after bytes requests)).2 := by
  rw [after, List.foldl_append]
  rfl

/-! ## One request -/

/-- What a request to a cursor at an offset answers, and where it leaves the cursor. -/
inductive Effect (bytes : Bytes) (offset : Nat) : (r : Request) → Result r.Value → (next : Nat) → Prop
  /-- The bytes that a value is decoded from stand there, and the cursor moves behind them. -/
  | reads {r : Reading} {v : r.Value} {form : List UInt8} (held : bytes.Holds offset form) (spells : r.Spells v form) :
    Effect bytes offset (.read r) (.ok v) (offset + form.length)
  /-- There is neither a value to read nor a number to reject, and the cursor stays. -/
  | misses {r : Reading} {e : Error} (absent : ∀ v form, bytes.Holds offset form → ¬r.Spells v form)
    (unled : ∀ form, bytes.Holds offset form → ¬r.Leads form) : Effect bytes offset (.read r) (.error e) offset
  /-- A number is there but it is rejected, or what follows it is, and the cursor has moved behind the number. -/
  | rejects {r : Reading} {e : Error} {form : List UInt8}
    (absent : ∀ v form, bytes.Holds offset form → ¬r.Spells v form) (held : bytes.Holds offset form)
    (leads : r.Leads form) : Effect bytes offset (.read r) (.error e) (offset + form.length)
  | seeks {target : Nat} (inside : target ≤ bytes.size) : Effect bytes offset (.seek target) (.ok ()) target
  | seeksPast {target : Nat} {e : Error} (past : bytes.size < target) :
    Effect bytes offset (.seek target) (.error e) offset
  | tells : Effect bytes offset .tell (.ok offset) offset
  | counts {left : Nat} (total : offset + left = bytes.size) : Effect bytes offset .remaining (.ok left) offset
  /-- The answer is that of the inner request, which ends within the bytes too, and the cursor is back. -/
  | peeks {inner : Request} {outcome : Result inner.Value} {next : Nat}
    (effect : Effect bytes offset inner outcome next) (inside : next ≤ bytes.size) :
    Effect bytes offset (.peek inner) outcome offset

theorem Effect.le_size {bytes : Bytes} {offset next : Nat} {r : Request} {outcome : Result r.Value}
    (h : Effect bytes offset r outcome next) (hle : offset ≤ bytes.size) : next ≤ bytes.size := by
  cases h with
  | reads held => exact held.le_size
  | rejects _ held => exact held.le_size
  | seeks inside => exact inside
  | misses | seeksPast | tells | counts | peeks => exact hle

section step

variable {bytes : Bytes} {offset : Nat} (hle : offset ≤ bytes.size)

include hle

/-- What stands at the offset settles which effect a reading has. -/
theorem effect_read (r : Reading) :
    Effect bytes offset (.read r) (r.step.on bytes offset).1 (r.step.on bytes offset).2 := by
  have h := r.outcomes
  rcases hstep : r.step.on bytes offset with ⟨e | v, next⟩
  · have habsent : ∀ v form, bytes.Holds offset form → ¬r.Spells v form := fun _ _ => h.absent hstep
    rcases h.fails hle hstep with ⟨rfl, hunled⟩ | ⟨form, hform, hleads, rfl⟩
    · exact .misses habsent hunled
    · exact .rejects habsent hform hleads
  · obtain ⟨form, hform, rfl, hspells⟩ := h.consumes bytes offset v next hle hstep
    exact .reads hform hspells

theorem effect_step (r : Request) : Effect bytes offset r (r.step.on bytes offset).1 (r.step.on bytes offset).2 := by
  induction r with
  | read r => exact effect_read hle r
  | seek target =>
    rw [Request.step, Read.on_seek]
    split
    · exact .seeksPast ‹_›
    · exact .seeks (Nat.not_lt.mp ‹_›)
  | tell => exact .tells
  | remaining => exact .counts (Nat.add_sub_cancel' hle)
  | peek inner ih => exact .peeks ih (ih.le_size hle)

end step

/-! ## Any requests -/

theorem after_le_size (bytes : Bytes) (requests : List Request) : after bytes requests ≤ bytes.size := by
  induction requests using List.reverseRecOn with
  | nil => exact Nat.zero_le _
  | append_singleton requests r ih =>
    rw [after_concat]
    exact (effect_step ih r).le_size ih

/-- What holds of a cursor after some requests, and of whatever it is asked for next. -/
structure Confined (bytes : Bytes) (requests : List Request) : Prop where
  le_size : after bytes requests ≤ bytes.size
  remaining : ∃ left, Read.remaining.on bytes (after bytes requests) = (.ok left, after bytes requests) ∧
    after bytes requests + left = bytes.size
  effect : ∀ r : Request, Effect bytes (after bytes requests) r (r.step.on bytes (after bytes requests)).1
    (after bytes (requests ++ [r]))
  /-- Where the bytes of a value stand, it is this value that is read, from these bytes. -/
  reads : ∀ (r : Reading) (v : r.Value) (form : List UInt8), bytes.Holds (after bytes requests) form → r.Spells v form →
    r.step.on bytes (after bytes requests) = (.ok v, after bytes requests + form.length)
  /-- Whatever is done in a peek, the cursor is back where it was. -/
  peek : ∀ {α : Type} (step : Read α), (Read.peek step).on bytes (after bytes requests) =
    ((step.on bytes (after bytes requests)).1, after bytes requests)

/-- Whatever a cursor is asked for, in whatever order and with whatever failures, it stays within
the bytes, and every request has its effect. -/
theorem confined_after (bytes : Bytes) (requests : List Request) : Confined bytes requests where
  le_size := after_le_size bytes requests
  remaining := ⟨_, rfl, Nat.add_sub_cancel' (after_le_size bytes requests)⟩
  effect := fun r => by
    rw [after_concat]
    exact effect_step (after_le_size bytes requests) r
  reads := fun r v form hform hspells => r.outcomes.yields hspells _ _ hform
  peek := fun _ => rfl

/-- A number that is too large for a size is moved over, and one that does not end is not. -/
example : after #[0xff, 0xff, 0xff, 0xff, 0x0f, 0x80]
    [.read .smallUleb128, .read .uleb128, .peek (.read .ubyte)] = 5 := by
  decide +kernel

end Dalvik.Cursor
