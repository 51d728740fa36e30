import Mathlib.Data.List.Forall2
import Dalvik.Read

/-!
# Reading what stands in some bytes

`Bytes.Holds` says that a sequence of bytes stands at an offset, and
`Read.Yields` that a step reads a written form, wherever it stands: it yields
the value and stops behind the form. The forms of steps that follow each other
follow each other (`Yields.bind`), and so do those of steps that are repeated
(`Yields.times`).
-/

namespace Dalvik

/-! ## Bytes at an offset -/

/-- The bytes of `form` stand at `offset`. -/
def Bytes.Holds (bytes : Bytes) (offset : Nat) (form : List UInt8) : Prop :=
  ∃ before after, bytes.toList = before ++ form ++ after ∧ before.length = offset

namespace Bytes.Holds

variable {bytes : Bytes} {offset : Nat} {form form' : List UInt8}

theorem le_size (h : Holds bytes offset form) : offset + form.length ≤ bytes.size := by
  obtain ⟨before, after, heq, rfl⟩ := h
  have := congrArg List.length heq
  simp only [Array.length_toList, List.length_append] at this
  omega

theorem append_iff : Holds bytes offset (form ++ form') ↔
    Holds bytes offset form ∧ Holds bytes (offset + form.length) form' := by
  constructor
  · rintro ⟨before, after, heq, rfl⟩
    exact ⟨⟨before, form' ++ after, by simp [heq], rfl⟩, ⟨before ++ form, after, by simp [heq], by simp⟩⟩
  · rintro ⟨⟨before, after, heq, rfl⟩, ⟨before', after', heq', hlen⟩⟩
    refine ⟨before, after', ?_, rfl⟩
    rw [heq] at heq'
    have hsplit : before ++ form = before' ∧ after = form' ++ after' := by
      refine List.append_inj (by rw [heq', List.append_assoc]) ?_
      rw [hlen, List.length_append]
    rw [heq, hsplit.2, List.append_assoc, List.append_assoc, List.append_assoc]

theorem left (h : Holds bytes offset (form ++ form')) : Holds bytes offset form :=
  (append_iff.mp h).1

theorem right (h : Holds bytes offset (form ++ form')) : Holds bytes (offset + form.length) form' :=
  (append_iff.mp h).2

theorem nil (h : offset ≤ bytes.size) : Holds bytes offset [] :=
  ⟨bytes.toList.take offset, bytes.toList.drop offset, by simp, by simp; omega⟩

/-- The bytes that stand at an offset are those of the range there. -/
theorem extract_eq (h : Holds bytes offset form) :
    (bytes.extract offset (offset + form.length)).toList = form := by
  obtain ⟨before, after, heq, rfl⟩ := h
  rw [Array.toList_extract, List.extract_eq_take_drop, heq]
  simp

/-- What stands from an offset on begins with the form there. -/
theorem extract_of_le (h : Holds bytes offset form) {last : Nat} (hlast : offset + form.length ≤ last) :
    ∃ rest, (bytes.extract offset last).toList = form ++ rest := by
  obtain ⟨before, after, heq, rfl⟩ := h
  rw [Array.toList_extract, List.extract_eq_take_drop, heq]
  refine ⟨after.take (last - before.length - form.length), ?_⟩
  rw [List.append_assoc, List.drop_left, List.take_append, List.take_of_length_le (by omega)]

/-- Below the bound, 32 bits keep an offset. -/
theorem toNat_ofNat (h : Holds bytes offset form) (hsize : bytes.size < extentBound) :
    (UInt32.ofNat offset).toNat = offset := by
  have hle := h.le_size
  rw [extentBound] at hsize
  exact UInt32.toNat_ofNat_of_lt' (show offset < 2 ^ 32 by omega)

end Bytes.Holds

/-- Forms that take up room are no more than their bytes. -/
theorem length_le_length_flatten {forms : List (List UInt8)} (h : ∀ form ∈ forms, form ≠ []) :
    forms.length ≤ forms.flatten.length := by
  induction forms with
  | nil => exact Nat.le_refl _
  | cons form forms ih =>
    have hform := List.length_pos_iff.mpr (h form List.mem_cons_self)
    have := ih fun form hform => h form (List.mem_cons_of_mem _ hform)
    rw [List.length_cons, List.flatten_cons, List.length_append]
    omega

/-! ### Forms of one size -/

section sized

variable {α : Type} {form : α → List UInt8} {size : Nat} {l : List α} (hsize : ∀ a ∈ l, (form a).length = size)

include hsize

theorem length_flatMap_of_forall : (l.flatMap form).length = l.length * size := by
  induction l with
  | nil => simp
  | cons a l ih =>
    have := ih fun a ha => hsize a (List.mem_cons_of_mem _ ha)
    rw [List.flatMap_cons, List.length_append, hsize a List.mem_cons_self, this, List.length_cons, Nat.succ_mul,
      Nat.add_comm]

/-- Of forms of one size, each stands where its index says. -/
theorem Bytes.Holds.of_flatMap {bytes : Bytes} {start : Nat} (h : bytes.Holds start (l.flatMap form)) {i : Nat} {a : α}
    (ha : l[i]? = some a) : bytes.Holds (start + i * size) (form a) := by
  induction l generalizing start i with
  | nil => cases ha
  | cons a' l ih =>
    rw [List.flatMap_cons] at h
    cases i with
    | zero =>
      cases ha
      rw [Nat.zero_mul]
      exact h.left
    | succ i =>
      have := ih (fun a ha => hsize a (List.mem_cons_of_mem _ ha)) h.right ha
      rw [Nat.succ_mul, Nat.add_comm (i * size), ← Nat.add_assoc]
      rwa [hsize a' List.mem_cons_self] at this

end sized

namespace Read

variable {α β : Type}

/-! ## The equations of steps -/

section equations

variable (bytes : Bytes) (offset : Nat)

theorem on_bind (step : Read α) (next : α → Read β) : (step >>= next).on bytes offset =
    match step.on bytes offset with
    | (.ok a, offset) => (next a).on bytes offset
    | (.error e, offset) => (.error e, offset) := by
  show ExceptT.bindCont (fun a => next a bytes) (step bytes offset).1 (step bytes offset).2 = _
  unfold on
  rcases step bytes offset with ⟨e | a, o⟩ <;> rfl

@[simp] theorem on_pure (a : α) : (pure a : Read α).on bytes offset = (.ok a, offset) := rfl

@[simp] theorem on_fail (cause : Cause) : (fail cause : Read α).on bytes offset = (.fail cause, offset) := rfl

@[simp] theorem on_tell : tell.on bytes offset = (.ok offset, offset) := rfl

@[simp] theorem on_mark : mark.on bytes offset = (.ok (UInt32.ofNat offset), offset) := rfl

@[simp] theorem on_get : (get : Read Nat).on bytes offset = (.ok offset, offset) := rfl

@[simp] theorem on_read : (read : Read Bytes).on bytes offset = (.ok bytes, offset) := rfl

@[simp] theorem on_set (next : Nat) : (set next : Read Unit).on bytes offset = (.ok (), next) := rfl

@[simp] theorem on_remaining : remaining.on bytes offset = (.ok (bytes.size - offset), offset) := rfl

@[simp] theorem on_seek (next : Nat) : (seek next).on bytes offset =
    if next > bytes.size then (.fail (.seekPastEnd next bytes.size), offset) else (.ok (), next) := by
  simp only [seek, on_bind, on_read]
  split <;> rfl

theorem at?_eq (step : Read α) (h : offset ≤ bytes.size) : step.at? bytes offset = (step.on bytes offset).1 := by
  rw [at?, on_bind, on_seek, if_neg (Nat.not_lt.mpr h)]

theorem on_within (step : Read α) (context : Context) : (step.within context).on bytes offset =
    ((step.on bytes offset).1.within context, (step.on bytes offset).2) := by
  unfold on within
  rcases step bytes offset with ⟨e | a, o⟩ <;> rfl

end equations

/-- What is read at an offset is read from there on. -/
theorem exists_of_at? {step : Read α} {bytes : Bytes} {offset : Nat} {a : α} (h : step.at? bytes offset = .ok a) :
    offset ≤ bytes.size ∧ ∃ last, step.on bytes offset = (.ok a, last) := by
  have hle : offset ≤ bytes.size := by
    by_contra hlt
    rw [at?, on_bind, on_seek, if_pos (Nat.not_le.mp hlt)] at h
    cases h
  rw [at?_eq _ _ _ hle] at h
  exact ⟨hle, _, Prod.ext h rfl⟩

/-! ## Yields -/

/-- Wherever `form` stands, the step yields `a` and stops behind `form`. -/
def Yields (step : Read α) (form : List UInt8) (a : α) : Prop :=
  ∀ (bytes : Bytes) (offset : Nat), bytes.Holds offset form → step.on bytes offset = (.ok a, offset + form.length)

namespace Yields

variable {step : Read α} {form form' : List UInt8} {a : α} {b : β}

theorem pure (a : α) : Yields (Pure.pure a) [] a := fun _ _ _ => rfl

/-- What follows goes on behind the form. -/
theorem on_bind (h : Yields step form a) (next : α → Read β) {bytes : Bytes} {offset : Nat}
    (hbytes : bytes.Holds offset form) : (step >>= next).on bytes offset = (next a).on bytes (offset + form.length) := by
  rw [Read.on_bind, h _ _ hbytes]

/-- Steps that follow each other read forms that follow each other. -/
theorem bind {next : α → Read β} (h : Yields step form a) (h' : Yields (next a) form' b) :
    Yields (step >>= next) (form ++ form') b := fun bytes offset hbytes => by
  rw [h.on_bind next hbytes.left, h' _ _ hbytes.right, List.length_append, Nat.add_assoc]

/-- A step that reads nothing may come last. -/
theorem bind_nil {next : α → Read β} (h : Yields step form a) (h' : Yields (next a) [] b) :
    Yields (step >>= next) form b := by
  rw [← List.append_nil form]
  exact h.bind h'

/-- A step that reads nothing may come first. -/
theorem nil_bind {next : α → Read β} (h : Yields step [] a) (h' : Yields (next a) form b) :
    Yields (step >>= next) form b :=
  h.bind h'

theorem bind_pure (h : Yields step form a) (f : α → β) : Yields (step >>= fun a => Pure.pure (f a)) form (f a) :=
  h.bind_nil (pure (f a))

theorem map (h : Yields step form a) (f : α → β) : Yields (f <$> step) form (f a) := by
  rw [map_eq_pure_bind]
  exact h.bind_pure f

theorem discard (h : Yields step form a) : Yields (Functor.discard step) form () := by
  rw [Functor.discard, map_const]
  exact h.map fun _ => ()

theorem within (h : Yields step form a) (context : Context) : Yields (step.within context) form a :=
  fun bytes offset hbytes => by
    rw [on_within, h _ _ hbytes]
    rfl

/-- A step that moves nowhere may come first. -/
theorem tell {next : Nat → Read β} (h : ∀ offset, Yields (next offset) form b) : Yields (Read.tell >>= next) form b :=
  fun bytes offset hbytes => by
    rw [Read.on_bind, on_tell]
    exact h offset _ _ hbytes

/-- A step that counts the remaining bytes may come first. -/
theorem remaining {next : Nat → Read β} (h : ∀ count, form.length ≤ count → Yields (next count) form b) :
    Yields (Read.remaining >>= next) form b := fun bytes offset hbytes => by
  have hle := hbytes.le_size
  rw [Read.on_bind, on_remaining]
  exact h _ (by omega) _ _ hbytes

/-- What an offset holds is read from there. -/
theorem at? (h : Yields step form a) {bytes : Bytes} {offset : Nat} (hbytes : bytes.Holds offset form) :
    step.at? bytes offset = .ok a := by
  have hle := hbytes.le_size
  rw [at?_eq _ _ _ (by omega), h _ _ hbytes]

/-! ### Repeated steps -/

theorem times {forms : List (List UInt8)} {as : List α} (h : List.Forall₂ (Yields step) forms as) :
    Yields (step.times as.length) forms.flatten as := by
  induction h with
  | nil => exact pure []
  | cons ha _ ih =>
    rw [List.flatten_cons, List.length_cons, Read.times]
    exact ha.bind (ih.bind_pure _)

theorem listFrom {forms : List (List UInt8)} {as : List α} (context : Nat → Context)
    (h : List.Forall₂ (Yields step) forms as) (index : Nat) :
    Yields (Read.listFrom context step index as.length) forms.flatten as := by
  induction h generalizing index with
  | nil => exact pure []
  | cons ha _ ih =>
    rw [List.flatten_cons, List.length_cons, Read.listFrom]
    exact (ha.within _).bind ((ih (index + 1)).bind_pure _)

theorem repeated {step : Read Unit} {forms : List (List UInt8)} (h : ∀ form ∈ forms, Yields step form ()) :
    Yields (Read.repeated step forms.length) forms.flatten () := by
  induction forms with
  | nil => exact pure ()
  | cons form forms ih =>
    rw [List.flatten_cons, List.length_cons, Read.repeated]
    exact (h form List.mem_cons_self).bind (ih fun form hform => h form (List.mem_cons_of_mem _ hform))

end Yields

/-! ## Yields with offsets -/

/-- Wherever `form` stands, the step stops behind it and yields a value that depends
on where that is. -/
def YieldsAt (step : Read α) (form : List UInt8) (value : Nat → α) : Prop :=
  ∀ (bytes : Bytes) (offset : Nat), bytes.Holds offset form →
    step.on bytes offset = (.ok (value (offset + form.length)), offset + form.length)

theorem yieldsAt_tell (f : Nat → α) : YieldsAt (tell >>= fun offset => pure (f offset)) [] f := fun _ _ _ => rfl

theorem Yields.bind_at {step : Read α} {next : α → Read β} {form form' : List UInt8} {a : α} {value : Nat → β}
    (h : Yields step form a) (h' : YieldsAt (next a) form' value) :
    YieldsAt (step >>= next) (form ++ form') value := fun bytes offset hbytes => by
  rw [h.on_bind next hbytes.left, h' _ _ hbytes.right, List.length_append, Nat.add_assoc]

theorem Yields.bind_tell {step : Read α} {form : List UInt8} {a : α} (h : Yields step form a) (f : α → Nat → β) :
    YieldsAt (step >>= fun a => Read.tell >>= fun offset => Pure.pure (f a offset)) form (f a) := by
  rw [← List.append_nil form]
  exact h.bind_at (yieldsAt_tell _)

theorem yieldsAt_mark (f : UInt32 → α) :
    YieldsAt (Read.mark >>= fun offset => pure (f offset)) [] fun offset => f (UInt32.ofNat offset) := fun _ _ _ => rfl

theorem Yields.bind_mark {step : Read α} {form : List UInt8} {a : α} (h : Yields step form a) (f : α → UInt32 → β) :
    YieldsAt (step >>= fun a => Read.mark >>= fun offset => Pure.pure (f a offset)) form
      fun offset => f a (UInt32.ofNat offset) := by
  rw [← List.append_nil form]
  exact h.bind_at (yieldsAt_mark _)

theorem YieldsAt.at? {step : Read α} {form : List UInt8} {value : Nat → α} (h : YieldsAt step form value)
    {bytes : Bytes} {offset : Nat} (hbytes : bytes.Holds offset form) :
    step.at? bytes offset = .ok (value (offset + form.length)) := by
  have hle := hbytes.le_size
  rw [at?_eq _ _ _ (by omega), h _ _ hbytes]

/-! ## What a success requires -/

/-- Where `form` stands, the step succeeds only if `P` holds. -/
def Requires (step : Read α) (form : List UInt8) (P : Prop) : Prop :=
  ∀ (bytes : Bytes) (offset last : Nat) (a : α), bytes.Holds offset form → step.on bytes offset = (.ok a, last) → P

namespace Requires

variable {step : Read α} {form form' : List UInt8} {P Q : Prop} {a : α}

/-- A step that succeeds has succeeded up to each of its parts. -/
theorem bind_left (h : Requires step form P) (next : α → Read β) (form' : List UInt8) :
    Requires (step >>= next) (form ++ form') P := fun bytes offset last b hbytes hon => by
  rw [on_bind] at hon
  split at hon
  · exact h _ _ _ _ hbytes.left ‹_›
  · cases hon

theorem bind_nil (h : Requires step form P) (next : α → Read β) : Requires (step >>= next) form P := by
  rw [← List.append_nil form]
  exact h.bind_left next []

/-- Whatever comes first is read, or nothing is. -/
theorem bind {next : α → Read β} (h : Requires step form P) (hyields : P → Yields step form a)
    (h' : Requires (next a) form' Q) : Requires (step >>= next) (form ++ form') (P ∧ Q) :=
  fun bytes offset last b hbytes hon => by
    have hfirst : P := h.bind_left next form' _ _ _ _ hbytes hon
    rw [(hyields hfirst).on_bind next hbytes.left] at hon
    exact ⟨hfirst, h' _ _ _ _ hbytes.right hon⟩

theorem tell {next : Nat → Read β} (h : ∀ offset, Requires (next offset) form P) :
    Requires (Read.tell >>= next) form P := fun bytes offset last b hbytes hon => by
  rw [Read.on_bind, on_tell] at hon
  exact h offset _ _ _ _ hbytes hon

theorem mono (h : Requires step form P) (himp : P → Q) : Requires step form Q :=
  fun _ _ _ _ hbytes hon => himp (h _ _ _ _ hbytes hon)

theorem at? (h : Requires step form P) {bytes : Bytes} {offset : Nat} (hbytes : bytes.Holds offset form)
    (hread : step.at? bytes offset = .ok a) : P := by
  obtain ⟨-, last, hon⟩ := exists_of_at? hread
  exact h _ _ _ _ hbytes hon

/-- Repeated steps succeed only if each of them does. -/
theorem times {forms : List (List UInt8)} {as : List α} {P : α → Prop}
    (h : List.Forall₂ (fun form a => Requires step form (P a) ∧ (P a → Yields step form a)) forms as) :
    Requires (step.times as.length) forms.flatten (∀ a ∈ as, P a) := by
  induction h with
  | nil => exact fun _ _ _ _ _ _ _ hmem => nomatch hmem
  | cons ha _ ih =>
    rw [List.flatten_cons, List.length_cons, Read.times]
    exact (ha.1.bind ha.2 (ih.bind_nil _)).mono List.forall_mem_cons.mpr

end Requires

/-- What is read after a form that is there requires what it requires. -/
theorem Yields.bind_requires {step : Read α} {next : α → Read β} {form form' : List UInt8} {a : α} {P : Prop}
    (h : Yields step form a) (h' : Requires (next a) form' P) : Requires (step >>= next) (form ++ form') P :=
  fun _ _ _ _ hbytes hon => h' _ _ _ _ hbytes.right (h.on_bind next hbytes.left ▸ hon)

theorem Yields.bind_requires_nil {step : Read α} {next : α → Read β} {form : List UInt8} {a : α} {P : Prop}
    (h : Yields step form a) (h' : Requires (next a) [] P) : Requires (step >>= next) form P := by
  rw [← List.append_nil form]
  exact h.bind_requires h'

end Read

end Dalvik
