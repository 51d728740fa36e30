import Dalvik.Image.Class
import Dalvik.Proofs.Value.Depth
import Dalvik.Proofs.Words

/-!
# Readers stay within their bytes

A reading step is made of a few operations that compute with offsets and take slices.
`Read.InRange` says of a run that each of them begins where its slices are in range, and
`Read.Guarded` that this is so wherever a step begins within the bytes, and that the step
then ends within them and not in front of where it began. All steps that read an image
are guarded, so that reading at an offset never leaves the bytes, whatever the offset
(`Read.Guarded.inRange_at?`).
-/

namespace Dalvik

namespace Read

variable {α β : Type}

/-- Run from an offset, the operations of a step compute no offset that does not fit, and
take no slice that is out of range. -/
inductive InRange (bytes : Bytes) : {α : Type} → Read α → (offset : Nat) → Prop
  | pure {α : Type} (a : α) (offset : Nat) : InRange bytes (Pure.pure a) offset
  | throw {α : Type} (e : Error) (offset : Nat) : InRange bytes (MonadExcept.throw e : Read α) offset
  | tell (offset : Nat) : InRange bytes Read.tell offset
  | seek (target offset : Nat) : InRange bytes (Read.seek target) offset
  | remaining {offset : Nat} (h : Word.sub bytes.size offset = some (bytes.size - offset)) :
      InRange bytes Read.remaining offset
  | take (count : Nat) (what : String) {offset : Nat}
      (h : ∀ last, Word.add 64 offset count = some last → last ≤ bytes.size → (Word.slice bytes offset last).isSome) :
      InRange bytes (Read.take count what) offset
  | leb128 {α : Type} (decode : List UInt8 → Except Leb128.Fault (α × Nat)) (signed : Bool) (context : Nat → Context)
      {offset : Nat} (h : (Word.slice bytes offset bytes.size).isSome) :
      InRange bytes (Read.leb128 decode signed context) offset
  /-- The units follow their number, up to a zero byte. -/
  | stringData {offset : Nat} (h : InRange bytes Read.smallUleb128 offset)
      (hunits : ∀ declared first, Read.smallUleb128.on bytes offset = (.ok declared, first) →
        (Word.slice bytes first bytes.size).isSome ∧
          ∀ last, zeroFrom? bytes first = some last → (Word.slice bytes first last).isSome) :
      InRange bytes Read.stringData offset
  | bind {α β : Type} {step : Read α} {next : α → Read β} {offset : Nat} (h : InRange bytes step offset)
      (hnext : ∀ a middle, step.on bytes offset = (.ok a, middle) → InRange bytes (next a) middle) :
      InRange bytes (step >>= next) offset
  | within {α : Type} {step : Read α} {offset : Nat} (h : InRange bytes step offset) (context : Context) :
      InRange bytes (step.within context) offset

/-- Wherever the step begins within the bytes, its operations are in range, and it ends
within the bytes and not in front of where it began. -/
structure Guarded (step : Read α) : Prop where
  inRange : ∀ (bytes : Bytes) (offset : Nat), offset ≤ bytes.size → InRange bytes step offset
  moves : ∀ (bytes : Bytes) (offset : Nat), offset ≤ bytes.size →
    offset ≤ (step.on bytes offset).2 ∧ (step.on bytes offset).2 ≤ bytes.size

namespace Guarded

theorem pure (a : α) : Guarded (Pure.pure a : Read α) :=
  ⟨fun _ _ _ => .pure a _, fun _ _ h => ⟨Nat.le_refl _, h⟩⟩

theorem throw (e : Error) : Guarded (MonadExcept.throw e : Read α) :=
  ⟨fun _ _ _ => .throw e _, fun _ _ h => ⟨Nat.le_refl _, h⟩⟩

theorem fail (cause : Cause) : Guarded (Read.fail cause : Read α) :=
  throw _

theorem ofResult (r : Result α) : Guarded (Read.ofResult r) := by
  cases r with
  | ok a => exact pure a
  | error e => exact throw e

theorem tell : Guarded Read.tell :=
  ⟨fun _ _ _ => .tell _, fun _ _ h => ⟨Nat.le_refl _, h⟩⟩

theorem remaining : Guarded Read.remaining :=
  ⟨fun _ _ h => .remaining (Word.sub_eq h), fun _ _ h => ⟨Nat.le_refl _, h⟩⟩

theorem bind {step : Read α} {next : α → Read β} (h : Guarded step) (hnext : ∀ a, Guarded (next a)) :
    Guarded (step >>= next) where
  inRange bytes offset hle := by
    refine .bind (h.inRange bytes offset hle) fun a middle hon => ?_
    have hmiddle := h.moves bytes offset hle
    rw [hon] at hmiddle
    exact (hnext a).inRange bytes middle hmiddle.2
  moves bytes offset hle := by
    have hmiddle := h.moves bytes offset hle
    rw [on_bind]
    split
    · rename_i a middle hon
      rw [hon] at hmiddle
      have hlast := (hnext a).moves bytes middle hmiddle.2
      exact ⟨Nat.le_trans hmiddle.1 hlast.1, hlast.2⟩
    · rename_i e middle hon
      rwa [hon] at hmiddle

theorem map {step : Read α} (h : Guarded step) (f : α → β) : Guarded (step >>= fun a => Pure.pure (f a)) :=
  h.bind fun a => pure (f a)

theorem mark : Guarded Read.mark :=
  tell.map _

theorem discard {step : Read α} (h : Guarded step) : Guarded (Functor.discard step) := by
  rw [Functor.discard, map_const, Function.comp_apply, map_eq_pure_bind]
  exact h.map _

theorem within {step : Read α} (h : Guarded step) (context : Context) : Guarded (step.within context) where
  inRange bytes offset hle := .within (h.inRange bytes offset hle) context
  moves bytes offset hle := by
    rw [on_within]
    exact h.moves bytes offset hle

/-- A step that fails is the last. -/
theorem fail_bind (cause : Cause) (next : β → Read α) : Guarded (Read.fail cause >>= next) :=
  throw _

/-! ### Repeated steps -/

theorem times {step : Read α} (h : Guarded step) (count : Nat) : Guarded (step.times count) := by
  induction count with
  | zero => exact pure []
  | succ count ih => exact h.bind fun first => ih.map _

theorem repeated {step : Read Unit} (h : Guarded step) (count : Nat) : Guarded (Read.repeated step count) := by
  induction count with
  | zero => exact pure ()
  | succ count ih => exact h.bind fun _ => ih

theorem listFrom {step : Read α} (h : Guarded step) (context : Nat → Context) (index count : Nat) :
    Guarded (Read.listFrom context step index count) := by
  induction count generalizing index with
  | zero => exact pure []
  | succ count ih => exact (h.within _).bind fun first => (ih (index + 1)).map _

/-! ### Numbers of a fixed width -/

theorem take (count : Nat) (what : String) : Guarded (Read.take count what) where
  inRange bytes offset hle := by
    refine .take count what fun last hlast hsize => ?_
    have hlast : offset + count = last := by
      rw [Word.add, Word.fit] at hlast
      split at hlast
      · exact Option.some.inj hlast
      · cases hlast
    rw [Word.slice_eq (by omega) hsize]
    rfl
  moves bytes offset hle := by
    simp only [Read.take, on_bind, on_read, on_get]
    split
    · exact ⟨Nat.le_add_right offset count, ‹_›⟩
    · exact ⟨Nat.le_refl _, hle⟩

theorem number (count : Nat) (what : String) : Guarded (Read.number count what) :=
  (take count what).map _

theorem skip (count : Nat) : Guarded (Read.skip count) :=
  (take count "skip").discard

theorem ubyte : Guarded Read.ubyte :=
  (number 1 "u1").map _

theorem byte : Guarded Read.byte :=
  ubyte.map _

theorem ushort : Guarded Read.ushort :=
  (number 2 "u2").map _

theorem short : Guarded Read.short :=
  ushort.map _

theorem uint : Guarded Read.uint :=
  (number 4 "u4").map _

theorem int : Guarded Read.int :=
  uint.map _

theorem long : Guarded Read.long :=
  ((number 8 "u8").map _).map _

theorem smallUint : Guarded Read.smallUint := by
  refine tell.bind fun start => uint.bind fun value => ?_
  split
  · exact fail _
  · exact pure value

theorem sizedUnsigned (size : Nat) : Guarded (Read.sizedUnsigned size) := by
  unfold Read.sizedUnsigned
  split
  · exact tell.bind fun start => fail _
  · exact (number _ _).map _

theorem sizedSigned (size : Nat) : Guarded (Read.sizedSigned size) :=
  (sizedUnsigned size).map _

theorem sizedRight (size width : Nat) : Guarded (Read.sizedRight size width) := by
  unfold Read.sizedRight
  split
  · exact fail _
  · exact (sizedUnsigned size).map _

/-! ### LEB128 numbers and strings -/

/-- A number takes bytes that are there. -/
theorem leb128 {decode : List UInt8 → Except Leb128.Fault (α × Nat)}
    (hdecode : ∀ bytes a count, decode bytes = .ok (a, count) → count ≤ bytes.length) (signed : Bool)
    (context : Nat → Context) : Guarded (Read.leb128 decode signed context) where
  inRange bytes offset hle := by
    refine .leb128 decode signed context ?_
    rw [Word.slice_eq hle (Nat.le_refl _)]
    rfl
  moves bytes offset hle := by
    simp only [Read.leb128, on_bind, on_tell, on_read]
    split
    · rename_i a count heq
      have hcount := hdecode _ _ _ heq
      rw [Array.length_toList, Array.size_extract] at hcount
      exact ⟨Nat.le_add_right offset count, show offset + count ≤ bytes.size by omega⟩
    · exact ⟨Nat.le_refl _, hle⟩
    · exact ⟨Nat.le_refl _, hle⟩

theorem uleb128 : Guarded Read.uleb128 :=
  leb128 (fun _ _ _ h => (Leb128.decodeUnsigned_count h).2) _ _

theorem uleb128p1 : Guarded Read.uleb128p1 :=
  leb128 (fun _ _ _ h => (Leb128.decodeSuccessor_count h).2) _ _

theorem sleb128 : Guarded Read.sleb128 :=
  leb128 (fun _ _ _ h => (Leb128.decodeSigned_count h).2) _ _

theorem smallUleb128 : Guarded Read.smallUleb128 := by
  refine tell.bind fun start => uleb128.bind fun value => ?_
  split
  · exact fail _
  · exact pure value

theorem zeroFrom?_bounds {bytes : Bytes} {start last : Nat} (h : zeroFrom? bytes start = some last) :
    start ≤ last ∧ last < bytes.size := by
  fun_induction zeroFrom? bytes start with
  | case1 start hlt hzero =>
    cases h
    exact ⟨Nat.le_refl _, hlt⟩
  | case2 start hlt hne ih =>
    have := ih h
    omega
  | case3 start hge => cases h

theorem stringData : Guarded Read.stringData where
  inRange bytes offset hle := by
    refine .stringData (smallUleb128.inRange bytes offset hle) fun declared first hon => ?_
    have hfirst := smallUleb128.moves bytes offset hle
    rw [hon] at hfirst
    refine ⟨by rw [Word.slice_eq hfirst.2 (Nat.le_refl _)]; rfl, fun last hlast => ?_⟩
    have := zeroFrom?_bounds hlast
    rw [Word.slice_eq this.1 (Nat.le_of_lt this.2)]
    rfl
  moves bytes offset hle := by
    have hfirst := smallUleb128.moves bytes offset hle
    rw [Read.stringData, on_bind, on_tell]
    dsimp only
    rw [on_bind]
    split
    · rename_i declared first hon
      rw [hon] at hfirst
      simp only [on_bind, on_tell, on_read]
      split
      · exact hfirst
      · rename_i last hlast
        have := zeroFrom?_bounds hlast
        split
        · exact hfirst
        · split
          · exact hfirst
          · exact ⟨show offset ≤ last + 1 by omega, show last + 1 ≤ bytes.size by omega⟩
    · rename_i e middle hon
      rwa [hon] at hfirst

/-- Reading at an offset is in range, whatever the offset. -/
theorem inRange_at? {step : Read α} (h : Guarded step) (bytes : Bytes) (offset : Nat) :
    InRange bytes (do Read.seek offset; step) 0 := by
  refine .bind (.seek offset 0) fun _ middle hon => h.inRange bytes middle ?_
  rw [on_seek] at hon
  split at hon
  · cases hon
  · cases hon
    omega

/-- What is read at an offset ends within the bytes, and not in front of the offset. -/
theorem of_at? {step : Read α} (h : Guarded step) {bytes : Bytes} {offset : Nat} {a : α}
    (hread : step.at? bytes offset = .ok a) :
    ∃ last, step.on bytes offset = (.ok a, last) ∧ offset ≤ last ∧ last ≤ bytes.size := by
  obtain ⟨hle, last, hon⟩ := exists_of_at? hread
  have hlast := h.moves bytes offset hle
  rw [hon] at hlast
  exact ⟨last, hon, hlast⟩

end Guarded

end Read

end Dalvik
