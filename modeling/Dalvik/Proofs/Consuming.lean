import Dalvik.Proofs.Numbers
import Dalvik.Proofs.Value.Skip

/-!
# What stood where a value was read

`Read.Consumes` goes the other way than `Read.Yields`: where a step has yielded a value,
it says which bytes it has moved over. The forms that steps consume one after the other
stand one behind the other (`Consumes.bind`).
-/

namespace Dalvik

/-- The bytes of a range stand where it begins. -/
theorem Bytes.holds_extract {bytes : Bytes} {offset last : Nat} (h : offset ≤ last) (hlast : last ≤ bytes.size) :
    bytes.Holds offset (bytes.extract offset last).toList := by
  refine ⟨bytes.toList.take offset, bytes.toList.drop last, ?_, ?_⟩
  · rw [Array.toList_extract, List.extract_eq_take_drop, List.append_assoc]
    have hrest : (bytes.toList.drop offset).drop (last - offset) = bytes.toList.drop last := by
      rw [List.drop_drop, Nat.add_sub_cancel' h]
    rw [← hrest, List.take_append_drop, List.take_append_drop]
  · rw [List.length_take, Array.length_toList]
    omega

namespace Write

/-- Two bytes are the form of what they decode to. -/
theorem ushort_decode {form : List UInt8} (h : form.length = 2) :
    ushort (UInt16.ofNat (LittleEndian.decode form)) = form := by
  have hlt := LittleEndian.decode_lt form
  rw [h] at hlt
  rw [ushort, UInt16.toNat_ofNat_of_lt' hlt, ← h, LittleEndian.encode_decode]

/-- Four bytes are the form of what they decode to. -/
theorem uint_decode {form : List UInt8} (h : form.length = 4) :
    uint (UInt32.ofNat (LittleEndian.decode form)) = form := by
  have hlt := LittleEndian.decode_lt form
  rw [h] at hlt
  rw [uint, UInt32.toNat_ofNat_of_lt' hlt, ← h, LittleEndian.encode_decode]

end Write

namespace Read

variable {α β : Type}

/-- Where the step yields a value, it has moved over bytes that are there; `post` tells of
the value and of these bytes. -/
def Consumes (step : Read α) (post : α → List UInt8 → Prop) : Prop :=
  ∀ (bytes : Bytes) (offset : Nat) (a : α) (next : Nat), offset ≤ bytes.size → step.on bytes offset = (.ok a, next) →
    ∃ form, bytes.Holds offset form ∧ next = offset + form.length ∧ post a form

namespace Consumes

variable {step : Read α} {post : α → List UInt8 → Prop}

theorem pure {a : α} (h : post a []) : Consumes (Pure.pure a : Read α) post := by
  intro bytes offset _ _ hle ha
  cases ha
  exact ⟨[], .nil hle, rfl, h⟩

theorem fail (cause : Cause) : Consumes (Read.fail cause) post := by
  intro bytes offset a next _ h
  cases h

/-- A step that fails is the last. -/
theorem fail_bind (cause : Cause) {next : β → Read α} : Consumes (Read.fail cause >>= next) post := by
  intro bytes offset a last _ h
  cases h

theorem mono (h : Consumes step post) {post' : α → List UInt8 → Prop} (himp : ∀ a form, post a form → post' a form) :
    Consumes step post' := by
  intro bytes offset a next hle ha
  obtain ⟨form, hheld, hnext, hpost⟩ := h bytes offset a next hle ha
  exact ⟨form, hheld, hnext, himp a form hpost⟩

/-- Steps that follow each other consume forms that follow each other. -/
theorem bind {next : α → Read β} {post' : β → List UInt8 → Prop} (h : Consumes step post)
    (h' : ∀ a form, post a form → Consumes (next a) fun b more => post' b (form ++ more)) :
    Consumes (step >>= next) post' := by
  intro bytes offset b last hle hb
  obtain ⟨a, middle, ha, hb⟩ := on_bind_eq_ok hb
  obtain ⟨form, hform, rfl, hpost⟩ := h bytes offset a middle hle ha
  obtain ⟨more, hmore, rfl, hpost'⟩ := h' a form hpost bytes _ b last hform.le_size hb
  refine ⟨form ++ more, Bytes.Holds.append_iff.mpr ⟨hform, hmore⟩, ?_, hpost'⟩
  rw [List.length_append, Nat.add_assoc]

/-- A step whose value tells what it has consumed. -/
theorem bind_form {form : α → List UInt8} {next : α → Read β} {post' : β → List UInt8 → Prop}
    (h : Consumes step fun a consumed => consumed = form a)
    (h' : ∀ a, Consumes (next a) fun b more => post' b (form a ++ more)) : Consumes (step >>= next) post' :=
  h.bind fun a _ hform => hform ▸ h' a

theorem map (h : Consumes step post) (f : α → β) {post' : β → List UInt8 → Prop}
    (himp : ∀ a form, post a form → post' (f a) form) : Consumes (step >>= fun a => Pure.pure (f a)) post' := by
  refine h.bind fun a form hpost => pure ?_
  rw [List.append_nil]
  exact himp a form hpost

theorem remaining {next : Nat → Read β} {post' : β → List UInt8 → Prop} (h : ∀ count, Consumes (next count) post') :
    Consumes (Read.remaining >>= next) post' := by
  intro bytes offset b last hle hb
  rw [on_bind, on_remaining] at hb
  exact h _ bytes offset b last hle hb

theorem tell {next : Nat → Read β} {post' : β → List UInt8 → Prop} (h : ∀ offset, Consumes (next offset) post') :
    Consumes (Read.tell >>= next) post' := by
  intro bytes offset b last hle hb
  rw [on_bind, on_tell] at hb
  exact h _ bytes offset b last hle hb

theorem within (h : Consumes step post) (context : Context) : Consumes (step.within context) post := by
  intro bytes offset a next hle ha
  rw [on_within, Prod.mk.injEq] at ha
  exact h bytes offset a next hle (Prod.ext (Result.within_eq_ok ha.1) ha.2)

theorem bind_pure {form : α → List UInt8} (h : Consumes step fun a consumed => consumed = form a) (f : α → β)
    {post' : β → List UInt8 → Prop} (himp : ∀ a, post' (f a) (form a)) :
    Consumes (step >>= fun a => Pure.pure (f a)) post' :=
  h.map f fun a _ hform => hform ▸ himp a

/-- Repeated steps consume the forms of their values, one after the other. -/
theorem times {P : α → Prop} {form : α → List UInt8} (h : Consumes step fun a consumed => P a ∧ consumed = form a)
    (count : Nat) : Consumes (Read.times step count) fun as consumed =>
      as.length = count ∧ (∀ a ∈ as, P a) ∧ consumed = as.flatMap form := by
  induction count with
  | zero => exact pure ⟨rfl, List.forall_mem_nil _, rfl⟩
  | succ count ih =>
    refine h.bind fun a _ ⟨ha, hform⟩ => ih.map _ fun as _ ⟨hlength, has, hforms⟩ => ?_
    refine ⟨congrArg (· + 1) hlength, List.forall_mem_cons.mpr ⟨ha, has⟩, ?_⟩
    rw [hform, hforms, List.flatMap_cons]

/-- Steps in a list consume one form for each value. -/
theorem listFrom (h : Consumes step post) (context : Nat → Context) (index count : Nat) :
    Consumes (Read.listFrom context step index count) fun as form =>
      as.length = count ∧ ∃ forms, form = forms.flatten ∧ List.Forall₂ post as forms := by
  induction count generalizing index with
  | zero => exact pure ⟨rfl, [], rfl, .nil⟩
  | succ count ih =>
    refine (h.within _).bind fun a first ha => (ih (index + 1)).map _ fun as form ⟨hlength, forms, hform, hforms⟩ => ?_
    refine ⟨congrArg (· + 1) hlength, first :: forms, ?_, .cons ha hforms⟩
    rw [hform, List.flatten_cons]

end Consumes

/-! ## Numbers of a fixed width -/

theorem consumes_take (count : Nat) (what : String) : Consumes (take count what) fun v form => form = v.toList := by
  intro bytes offset v next hle hv
  rw [take] at hv
  simp only [on_bind, on_read, on_get] at hv
  split at hv
  · rename_i hfits
    cases hv
    refine ⟨_, Bytes.holds_extract (Nat.le_add_right ..) hfits, ?_, rfl⟩
    rw [Array.length_toList, Array.size_extract]
    omega
  · cases hv

theorem consumes_bytes (count : Nat) : Consumes (Read.bytes count) fun v form => form = v.toList :=
  consumes_take count "byte array"

theorem consumes_skip (count : Nat) : Consumes (skip count) fun _ form => form.length = count := by
  unfold skip
  rw [Functor.discard, map_const, Function.comp_apply, map_eq_pure_bind]
  refine (consumes_take count "skip").map _ fun v form hform => ?_
  rw [hform, Vector.length_toList]

theorem consumes_number (count : Nat) (what : String) :
    Consumes (number count what) fun n form => form.length = count ∧ n = LittleEndian.decode form :=
  (consumes_take count what).map _ fun v form hform => by
    rw [hform, Vector.length_toList]
    exact ⟨rfl, rfl⟩

theorem consumes_ushort : Consumes ushort fun v form => form = Write.ushort v :=
  (consumes_number 2 "u2").map _ fun n form ⟨hlength, hn⟩ => by
    rw [hn, Write.ushort_decode hlength]

theorem consumes_uint : Consumes uint fun v form => form = Write.uint v :=
  (consumes_number 4 "u4").map _ fun n form ⟨hlength, hn⟩ => by
    rw [hn, Write.uint_decode hlength]

theorem consumes_smallUint : Consumes smallUint fun v form => v.toNat < extentBound ∧ form = Write.uint v := by
  refine Consumes.tell fun start => consumes_uint.bind fun v form hform => ?_
  split
  · exact Consumes.fail _
  · rename_i hsmall
    refine Consumes.pure ⟨Nat.not_le.mp hsmall, ?_⟩
    rw [List.append_nil, hform]

/-- A size or an offset that comes first. -/
theorem Consumes.bind_smallUint {next : UInt32 → Read β} {post' : β → List UInt8 → Prop}
    (h' : ∀ v, v.toNat < extentBound → Consumes (next v) fun b more => post' b (Write.uint v ++ more)) :
    Consumes (smallUint >>= next) post' :=
  consumes_smallUint.bind fun v _ ⟨hsmall, hform⟩ => hform ▸ h' v hsmall

end Read

end Dalvik
