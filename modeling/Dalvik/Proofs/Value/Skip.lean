import Dalvik.Proofs.Outcome
import Dalvik.Proofs.Reading
import Dalvik.Value.Decode

/-!
# Stepping over a value ends where reading it ends

A step passes what another step reads if it stops where the other stops, wherever
the other succeeds (`Read.Passes`). `Value.skip_passes`: stepping over a value
passes whatever is read as a value, with any resolver.
-/

namespace Dalvik

namespace Read

variable {α β : Type}

/-- Wherever `step` yields a value, `pass` succeeds and stops at the same offset. -/
def Passes (pass : Read Unit) (step : Read α) : Prop :=
  ∀ (bytes : Bytes) (offset : Nat) (a : α) (next : Nat),
    step.on bytes offset = (.ok a, next) → pass.on bytes offset = (.ok (), next)

/-- The step does not move. -/
def Still (step : Read α) : Prop :=
  ∀ (bytes : Bytes) (offset : Nat) (a : α) (next : Nat), step.on bytes offset = (.ok a, next) → next = offset

/-- Steps that follow each other yield a value together if each of them does. -/
theorem on_bind_eq_ok {step : Read α} {next : α → Read β} {bytes : Bytes} {offset last : Nat} {b : β}
    (h : (step >>= next).on bytes offset = (.ok b, last)) :
    ∃ a middle, step.on bytes offset = (.ok a, middle) ∧ (next a).on bytes middle = (.ok b, last) := by
  rw [on_bind] at h
  split at h
  · exact ⟨_, _, ‹_›, h⟩
  · cases h

theorem still_pure (a : α) : Still (pure a : Read α) := by
  intro bytes offset _ next h
  cases h
  rfl

theorem still_fail (cause : Cause) : Still (fail cause : Read α) := by
  intro bytes offset a next h
  cases h

theorem still_tell : Still tell := by
  intro bytes offset a next h
  cases h
  rfl

theorem still_ofResult (r : Result α) : Still (ofResult r) := by
  intro bytes offset a next h
  cases r <;> cases h
  rfl

namespace Passes

variable {pass pass' : Read Unit} {step : Read α}

theorem yields (h : Passes pass step) {form : List UInt8} {a : α} (hstep : Yields step form a) :
    Yields pass form () := fun bytes offset hbytes => h bytes offset a _ (hstep bytes offset hbytes)

theorem pure (a : α) : Passes (Pure.pure ()) (Pure.pure a : Read α) := by
  intro bytes offset _ next h
  cases h
  rfl

theorem discard (step : Read α) : Passes (Functor.discard step) step := by
  intro bytes offset a next h
  rw [Functor.discard, map_const, Function.comp_apply, map_eq_pure_bind, on_bind, h]
  rfl

theorem bind {next : α → Read β} (h : Passes pass step) (h' : ∀ a, Passes pass' (next a)) :
    Passes (pass >>= fun _ => pass') (step >>= next) := by
  intro bytes offset b last hb
  obtain ⟨a, middle, ha, hb⟩ := on_bind_eq_ok hb
  rw [on_bind, h _ _ _ _ ha]
  exact h' a _ _ _ _ hb

/-- Both go on after the same step. -/
theorem shared {pass : α → Read Unit} {next : α → Read β} (h : ∀ a, Passes (pass a) (next a)) :
    Passes (step >>= pass) (step >>= next) := by
  intro bytes offset b last hb
  obtain ⟨a, middle, ha, hb⟩ := on_bind_eq_ok hb
  rw [on_bind, ha]
  exact h a _ _ _ _ hb

/-- What does not move may be left out in front. -/
theorem still_bind {still : Read α} (hstill : Still still) {next : α → Read β} (h : ∀ a, Passes pass (next a)) :
    Passes pass (still >>= next) := by
  intro bytes offset b last hb
  obtain ⟨a, middle, ha, hrest⟩ := on_bind_eq_ok hb
  rw [hstill _ _ _ _ ha] at hrest
  exact h a _ _ _ _ hrest

/-- What does not move may be left out at the end. -/
theorem bind_still (h : Passes pass step) {next : α → Read β} (hstill : ∀ a, Still (next a)) :
    Passes pass (step >>= next) := by
  intro bytes offset b last hb
  obtain ⟨a, middle, ha, hrest⟩ := on_bind_eq_ok hb
  rw [hstill _ _ _ _ _ hrest]
  exact h _ _ _ _ ha

theorem map (h : Passes pass step) (f : α → β) : Passes pass (step >>= fun a => Pure.pure (f a)) :=
  h.bind_still fun a => still_pure (f a)

theorem within (h : Passes pass step) (context : Context) : Passes pass (step.within context) := by
  intro bytes offset a next ha
  rw [on_within] at ha
  obtain ⟨hvalue, rfl⟩ := Prod.mk.inj ha
  exact h _ _ a _ (Prod.ext (Result.within_eq_ok hvalue) rfl)

theorem times (h : Passes pass step) (count : Nat) : Passes (Read.repeated pass count) (step.times count) := by
  induction count with
  | zero => exact pure []
  | succ count ih => exact h.bind fun a => ih.map _

theorem listFrom (h : Passes pass step) (context : Nat → Context) (index count : Nat) :
    Passes (Read.repeated pass count) (Read.listFrom context step index count) := by
  induction count generalizing index with
  | zero => exact pure []
  | succ count ih => exact (h.within _).bind fun a => (ih (index + 1)).map _

end Passes

/-! ## Numbers -/

theorem skip_passes_take (count : Nat) (what : String) : Passes (skip count) (take count what) := by
  refine fun bytes offset a next h => Passes.discard (take count "skip") bytes offset a next ?_
  unfold take at h ⊢
  simp only [on_bind, on_read, on_get] at h ⊢
  split at h
  · rwa [dif_pos ‹_›]
  · cases h

theorem skip_passes_number (count : Nat) (what : String) : Passes (skip count) (number count what) :=
  (skip_passes_take count what).map _

theorem skip_passes_sizedUnsigned (size : Nat) : Passes (skip size) (sizedUnsigned size) := by
  unfold sizedUnsigned
  split
  · exact fun _ _ _ _ h => nomatch h
  · exact (skip_passes_number size _).map _

theorem skip_passes_sizedSigned (size : Nat) : Passes (skip size) (sizedSigned size) :=
  (skip_passes_sizedUnsigned size).map _

theorem skip_passes_sizedRight (size width : Nat) : Passes (skip size) (sizedRight size width) := by
  unfold sizedRight
  split
  · exact fun _ _ _ _ h => nomatch h
  · exact (skip_passes_sizedUnsigned size).map _

theorem uleb128_passes_smallUleb128 : Passes (Functor.discard uleb128) smallUleb128 := by
  refine .still_bind still_tell fun start => (Passes.discard uleb128).bind_still fun value => ?_
  split
  · exact still_fail _
  · exact still_pure _

end Read

namespace Value

open Read

variable {r : ValueResolver}

theorem still_checkSize (tag argument start most : Nat) : Still (checkSize tag argument start most) := by
  unfold checkSize
  split
  · exact still_fail _
  · exact still_pure _

theorem still_checkNoArgument (tag argument start : Nat) : Still (checkNoArgument tag argument start) := by
  unfold checkNoArgument
  split
  · exact still_fail _
  · exact still_pure _

theorem skip_passes_readIndexed {α : Type} (find : UInt32 → Result α) (size : Nat) :
    Passes (Read.skip size) (readIndexed find size) :=
  (skip_passes_sizedUnsigned size).bind_still fun _ => still_ofResult _

section inside

variable {pass : Read Unit} {one : Read Value} (h : Passes pass one)

include h

theorem repeated_passes_readArray : Passes (do Read.repeated pass (← smallUleb128).toNat) (readArray one) :=
  .shared fun count => h.listFrom _ 0 count.toNat

theorem repeated_passes_readElements : Passes (do
      let count := (← smallUleb128).toNat
      Read.repeated (do discard uleb128; pass) count) (readElements r one) := by
  refine .shared fun count => Passes.times ?_ count.toNat
  exact uleb128_passes_smallUleb128.bind fun _ => .still_bind (still_ofResult _) fun _ => h.map _

theorem pass_passes_readBody : Passes (do
      discard uleb128
      let count := (← smallUleb128).toNat
      Read.repeated (do discard uleb128; pass) count) (readBody r one) :=
  uleb128_passes_smallUleb128.bind fun _ =>
    .still_bind (still_ofResult _) fun _ => (repeated_passes_readElements h).map _

/-- Stepping over what follows a head byte passes whatever is read there. -/
theorem skipContent_passes (tag argument start : Nat) :
    Passes (skipContent pass tag argument) (readContent r one tag argument start) := by
  unfold readContent
  dsimp only
  split
  case h_1 =>
    unfold checkSize
    split
    · exact fun _ _ _ _ h => nomatch h
    · obtain rfl : argument = 0 := by omega
      exact .still_bind (still_pure _) fun _ => (((skip_passes_number 1 "u1").map _).map _).map _
  case h_2 => exact .still_bind (still_checkSize _ _ _ _) fun _ => (skip_passes_sizedSigned _).map _
  case h_3 => exact .still_bind (still_checkSize _ _ _ _) fun _ => (skip_passes_sizedUnsigned _).map _
  case h_4 | h_5 => exact .still_bind (still_checkSize _ _ _ _) fun _ => (skip_passes_sizedSigned _).map _
  case h_6 | h_7 => exact .still_bind (still_checkSize _ _ _ _) fun _ => (skip_passes_sizedRight _ _).map _
  case h_8 | h_9 | h_10 | h_11 | h_12 | h_13 | h_14 =>
    exact .still_bind (still_checkSize _ _ _ _) fun _ => (skip_passes_readIndexed _ _).map _
  case h_15 => exact .still_bind (still_checkNoArgument _ _ _) fun _ => (repeated_passes_readArray h).map _
  case h_16 =>
    exact .still_bind (still_checkNoArgument _ _ _) fun _ => (pass_passes_readBody h).map _
  case h_17 => exact .still_bind (still_checkNoArgument _ _ _) fun _ => .pure _
  case h_18 =>
    split
    · exact fun _ _ _ _ h => nomatch h
    · exact .pure _
  case h_19 => exact fun _ _ _ _ h => nomatch h

end inside

/-- Stepping over a value, with a bound on the levels of nesting, passes it. -/
theorem skipWithin_passes (depth : Nat) : Passes (skipWithin depth) (decodeWithin r depth) := by
  induction depth with
  | zero => exact fun _ _ _ _ h => nomatch h
  | succ depth ih =>
    exact .still_bind still_tell fun start => .shared fun head => skipContent_passes ih _ _ start

/-- Stepping over a value passes it. -/
theorem skip_passes : Passes skip (decode r) :=
  .shared fun count => skipWithin_passes (count + 1)

end Value

end Dalvik
