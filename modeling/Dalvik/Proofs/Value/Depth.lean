import Dalvik.Proofs.Value.Skip

/-!
# The bound on nesting is never reached

The steps that read a value come with a bound on the levels of nesting. A value takes
a byte for every level, so that any bound above the number of remaining bytes gives
the same outcome (`alike_decodeWithin`): a value is read in the same way by itself and
as one of a list.
-/

namespace Dalvik

namespace Read

variable {α β : Type}

/-! ## Steps that do not move back -/

/-- The step does not move back, whatever comes of it. -/
def Forward (step : Read α) : Prop :=
  ∀ (bytes : Bytes) (offset : Nat), offset ≤ (step.on bytes offset).2

/-- From `low` on, two steps have the same outcome and do not move in front of it. -/
def Alike (bytes : Bytes) (low : Nat) (step step' : Read α) : Prop :=
  ∀ offset, low ≤ offset → step'.on bytes offset = step.on bytes offset ∧ low ≤ (step.on bytes offset).2

theorem Forward.alike {step : Read α} (h : Forward step) {bytes : Bytes} {low : Nat} : Alike bytes low step step :=
  fun offset hle => ⟨rfl, Nat.le_trans hle (h bytes offset)⟩

namespace Alike

variable {bytes : Bytes} {low : Nat} {step step' : Read α}

theorem bind (h : Alike bytes low step step') {next next' : α → Read β} (hnext : ∀ a, Alike bytes low (next a) (next' a)) :
    Alike bytes low (step >>= next) (step' >>= next') := by
  intro offset hle
  obtain ⟨heq, hlow⟩ := h offset hle
  rw [on_bind, on_bind, heq]
  rcases hon : step.on bytes offset with ⟨e | a, middle⟩
  · rw [hon] at hlow
    exact ⟨rfl, hlow⟩
  · rw [hon] at hlow
    exact hnext a middle hlow

theorem within (h : Alike bytes low step step') (context : Context) :
    Alike bytes low (step.within context) (step'.within context) := by
  intro offset hle
  obtain ⟨heq, hlow⟩ := h offset hle
  rw [on_within, on_within, heq]
  exact ⟨rfl, hlow⟩

theorem pure (a : α) : Alike bytes low (Pure.pure a) (Pure.pure a) :=
  fun _ hle => ⟨rfl, hle⟩

theorem times (h : Alike bytes low step step') (count : Nat) :
    Alike bytes low (step.times count) (step'.times count) := by
  induction count with
  | zero => exact pure []
  | succ count ih => exact h.bind fun first => ih.bind fun rest => pure _

theorem listFrom (h : Alike bytes low step step') (context : Nat → Context) (index count : Nat) :
    Alike bytes low (Read.listFrom context step index count) (Read.listFrom context step' index count) := by
  induction count generalizing index with
  | zero => exact pure []
  | succ count ih => exact (h.within _).bind fun first => (ih (index + 1)).bind fun rest => pure _

end Alike

namespace Forward

theorem pure (a : α) : Forward (Pure.pure a : Read α) := fun _ offset => Nat.le_refl offset

theorem fail (cause : Cause) : Forward (Read.fail cause : Read α) := fun _ offset => Nat.le_refl offset

theorem tell : Forward Read.tell := fun _ offset => Nat.le_refl offset

theorem ofResult (r : Result α) : Forward (Read.ofResult r) := by
  intro bytes offset
  cases r <;> exact Nat.le_refl offset

theorem bind {step : Read α} {next : α → Read β} (h : Forward step) (hnext : ∀ a, Forward (next a)) :
    Forward (step >>= next) :=
  fun _ offset => ((h.alike.bind fun a => (hnext a).alike) offset (Nat.le_refl offset)).2

theorem map {step : Read α} (h : Forward step) (f : α → β) : Forward (step >>= fun a => Pure.pure (f a)) :=
  h.bind fun a => pure (f a)

/-! ### Numbers -/

theorem take (count : Nat) (what : String) : Forward (Read.take count what) := by
  intro bytes offset
  simp only [Read.take, on_bind, on_read, on_get]
  split
  · exact Nat.le_add_right offset count
  · exact Nat.le_refl offset

theorem number (count : Nat) (what : String) : Forward (Read.number count what) :=
  (take count what).map _

theorem uleb128 : Forward Read.uleb128 := by
  intro bytes offset
  simp only [Read.uleb128, leb128, on_bind, on_tell, on_read]
  split
  · exact Nat.le_add_right offset _
  · exact Nat.le_refl offset
  · exact Nat.le_refl offset

theorem smallUleb128 : Forward Read.smallUleb128 := by
  refine tell.bind fun start => uleb128.bind fun value => ?_
  split
  · exact fail _
  · exact pure value

theorem sizedUnsigned (size : Nat) : Forward (Read.sizedUnsigned size) := by
  unfold Read.sizedUnsigned
  split
  · exact tell.bind fun start => fail _
  · exact (number _ _).map _

theorem sizedSigned (size : Nat) : Forward (Read.sizedSigned size) :=
  (sizedUnsigned size).map _

theorem sizedRight (size width : Nat) : Forward (Read.sizedRight size width) := by
  unfold Read.sizedRight
  split
  · exact fail _
  · exact (sizedUnsigned size).map _

end Forward

/-- A byte is read where there is one. -/
theorem on_ubyte (bytes : Bytes) (offset : Nat) :
    (∃ e, ubyte.on bytes offset = (.error e, offset)) ∨
      ∃ b, ubyte.on bytes offset = (.ok b, offset + 1) ∧ offset < bytes.size := by
  by_cases hlt : offset + 1 ≤ bytes.size
  · refine .inr ⟨UInt8.ofNat (LittleEndian.decode (bytes.extract offset (offset + 1)).toList), ?_, hlt⟩
    simp only [ubyte, number, take, on_bind, on_read, on_get, dif_pos hlt, on_set, on_pure]
    rfl
  · refine .inl ⟨⟨.endOfStream "u1" offset, []⟩, ?_⟩
    simp only [ubyte, number, take, on_bind, on_read, on_get, dif_neg hlt, on_fail]
    rfl

end Read

namespace Value

open Read

variable {r : ValueResolver}

theorem forward_readIndexed {α : Type} (find : UInt32 → Result α) (size : Nat) : Forward (readIndexed find size) :=
  (Forward.sizedUnsigned size).bind fun _ => .ofResult _

section inside

variable {bytes : Bytes} {low : Nat} {one one' : Read Value} (h : Alike bytes low one one')

include h

theorem alike_readArray : Alike bytes low (readArray one) (readArray one') :=
  Forward.smallUleb128.alike.bind fun count => h.listFrom _ 0 count.toNat

theorem alike_readElements : Alike bytes low (readElements r one) (readElements r one') := by
  refine Forward.smallUleb128.alike.bind fun count => Alike.times ?_ count.toNat
  exact Forward.smallUleb128.alike.bind fun i => (Forward.ofResult (r.string i)).alike.bind fun name =>
    h.bind fun v => .pure (name, v)

theorem alike_readBody : Alike bytes low (readBody r one) (readBody r one') :=
  Forward.smallUleb128.alike.bind fun i => (Forward.ofResult (r.type i)).alike.bind fun t =>
    (alike_readElements h).bind fun elements => .pure (t, elements)

/-- What follows a head is read alike if the values inside are. -/
theorem alike_readContent (tag argument start : Nat) :
    Alike bytes low (readContent r one tag argument start) (readContent r one' tag argument start) := by
  have hsize : ∀ most, Forward (checkSize tag argument start most) := by
    intro most
    unfold checkSize
    split
    · exact .fail _
    · exact .pure ()
  have hargument : Forward (checkNoArgument tag argument start) := by
    unfold checkNoArgument
    split
    · exact .fail _
    · exact .pure ()
  unfold readContent
  dsimp only
  split
  case h_1 => exact ((hsize _).bind fun _ => ((((Forward.number 1 "u1").map _).map _).map _)).alike
  case h_2 | h_4 | h_5 => exact ((hsize _).bind fun _ => (Forward.sizedSigned _).map _).alike
  case h_3 => exact ((hsize _).bind fun _ => (Forward.sizedUnsigned _).map _).alike
  case h_6 | h_7 => exact ((hsize _).bind fun _ => (Forward.sizedRight _ _).map _).alike
  case h_8 | h_9 | h_10 | h_11 | h_12 | h_13 | h_14 =>
    exact ((hsize _).bind fun _ => (forward_readIndexed _ _).map _).alike
  case h_15 => exact hargument.alike.bind fun _ => (alike_readArray h).bind fun vs => .pure (array vs)
  case h_16 => exact hargument.alike.bind fun _ => (alike_readBody h).bind fun p => .pure (nested p.1 p.2)
  case h_17 => exact (hargument.map _).alike
  case h_18 =>
    split
    · exact ((Forward.fail _).bind fun _ => .pure _).alike
    · exact .pure _
  case h_19 => exact (Forward.fail _).alike

end inside

/-- Two bounds on the levels of nesting that exceed the number of remaining bytes have
the same outcome. -/
theorem alike_decodeWithin {bytes : Bytes} {low depth depth' : Nat} (h : bytes.size - low < depth)
    (h' : bytes.size - low < depth') : Alike bytes low (decodeWithin r depth) (decodeWithin r depth') := by
  induction depth generalizing low depth' with
  | zero => exact absurd h (Nat.not_lt_zero _)
  | succ depth ih =>
    obtain ⟨depth', rfl⟩ := Nat.exists_eq_add_one_of_ne_zero (Nat.ne_zero_of_lt h')
    intro offset hle
    simp only [decodeWithin, on_bind, on_tell]
    rcases on_ubyte bytes offset with ⟨e, hb⟩ | ⟨b, hb, hlt⟩
    · rw [hb]
      exact ⟨rfl, hle⟩
    · rw [hb]
      have hinner : Alike bytes (offset + 1) (decodeWithin r depth) (decodeWithin r depth') :=
        ih (by omega) (by omega)
      obtain ⟨heq, hlow⟩ := alike_readContent hinner (b.toNat % 0x20) (b.toNat / 0x20) offset (offset + 1) (Nat.le_refl _)
      exact ⟨heq, Nat.le_trans (Nat.le_succ_of_le hle) hlow⟩

/-- Whatever the bound on the levels of nesting, a value that is read with one above the
number of remaining bytes is read without any. -/
theorem on_decode {bytes : Bytes} {offset depth : Nat} (h : bytes.size - offset < depth) :
    (decode r).on bytes offset = (decodeWithin r depth).on bytes offset := by
  rw [decode, on_bind, on_remaining]
  exact (alike_decodeWithin h (Nat.lt_succ_self _) offset (Nat.le_refl _)).1

end Value

end Dalvik
