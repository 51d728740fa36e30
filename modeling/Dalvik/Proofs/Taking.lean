import Dalvik.Proofs.Consuming

/-!
# What a step takes from the bytes

`Read.Takes` says how many bytes a step has moved over when it yields a value: as many as
what it consumes (`Consumes.takes`). Steps that follow each other take the sum (`Takes.bind`),
and repeated ones a multiple (`Takes.times`).
-/

namespace Dalvik.Read

variable {α β : Type}

/-- Where the step yields a value, it has moved over bytes that are there; `post`
tells of the value and of the number of these bytes. -/
def Takes (step : Read α) (post : α → Nat → Prop) : Prop :=
  ∀ (bytes : Bytes) (offset : Nat) (a : α) (next : Nat), offset ≤ bytes.size → step.on bytes offset = (.ok a, next) →
    ∃ count, next = offset + count ∧ next ≤ bytes.size ∧ post a count

/-- What a step consumes has a length. -/
theorem Consumes.takes {step : Read α} {post : α → Nat → Prop} (h : Consumes step fun a form => post a form.length) :
    Takes step post := by
  intro bytes offset a next hle ha
  obtain ⟨form, hform, rfl, hpost⟩ := h bytes offset a next hle ha
  exact ⟨form.length, rfl, hform.le_size, hpost⟩

/-- As many bytes as a step takes are there to be consumed. -/
theorem Takes.consumes {step : Read α} {post : α → Nat → Prop} (h : Takes step post) :
    Consumes step fun a form => post a form.length := by
  intro bytes offset a next hle ha
  obtain ⟨count, rfl, hsize, hpost⟩ := h bytes offset a next hle ha
  have hcount : (bytes.extract offset (offset + count)).toList.length = count := by
    rw [Array.length_toList, Array.size_extract]
    omega
  refine ⟨_, Bytes.holds_extract (Nat.le_add_right ..) hsize, by rw [hcount], ?_⟩
  show post a (bytes.extract offset (offset + count)).toList.length
  rwa [hcount]

namespace Takes

variable {step : Read α} {post : α → Nat → Prop}

theorem of_consumes {form : α → List UInt8 → Prop} (h : Consumes step form)
    (himp : ∀ a consumed, form a consumed → post a consumed.length) : Takes step post :=
  Consumes.takes (h.mono himp)

theorem pure {a : α} (h : post a 0) : Takes (Pure.pure a : Read α) post :=
  Consumes.takes (.pure h)

theorem fail (cause : Cause) : Takes (Read.fail cause) post :=
  Consumes.takes (.fail cause)

theorem throw (e : Error) : Takes (MonadExcept.throw e : Read α) post := by
  intro bytes offset a next _ h
  cases h

/-- A step that fails is the last. -/
theorem fail_bind (cause : Cause) {next : β → Read α} : Takes (Read.fail cause >>= next) post :=
  Consumes.takes (.fail_bind cause)

theorem mono (h : Takes step post) {post' : α → Nat → Prop} (himp : ∀ a count, post a count → post' a count) :
    Takes step post' :=
  Consumes.takes (h.consumes.mono fun a form => himp a form.length)

/-- Steps that follow each other take what both take. -/
theorem bind {next : α → Read β} {post' : β → Nat → Prop} (h : Takes step post)
    (h' : ∀ a count, post a count → Takes (next a) fun b more => post' b (count + more)) :
    Takes (step >>= next) post' := by
  refine Consumes.takes (h.consumes.bind fun a form hpost => ?_)
  simp only [List.length_append]
  exact (h' a form.length hpost).consumes

theorem map (h : Takes step post) (f : α → β) {post' : β → Nat → Prop} (himp : ∀ a count, post a count → post' (f a) count) :
    Takes (step >>= fun a => Pure.pure (f a)) post' :=
  Consumes.takes (h.consumes.map f fun a form => himp a form.length)

/-- A step that moves nowhere may come first, such as this one and `tell`. -/
theorem remaining {next : Nat → Read β} {post' : β → Nat → Prop} (h : ∀ count, Takes (next count) post') :
    Takes (Read.remaining >>= next) post' :=
  Consumes.takes (.remaining fun count => (h count).consumes)

theorem tell {next : Nat → Read β} {post' : β → Nat → Prop} (h : ∀ offset, Takes (next offset) post') :
    Takes (Read.tell >>= next) post' :=
  Consumes.takes (.tell fun offset => (h offset).consumes)

theorem within (h : Takes step post) (context : Context) : Takes (step.within context) post :=
  Consumes.takes (h.consumes.within context)

end Takes

/-- A value that is there already is taken from nowhere. -/
theorem takes_ofResult (r : Result α) : Takes (ofResult r) fun a taken => taken = 0 ∧ r = .ok a := by
  intro bytes offset a next hle ha
  cases r with
  | error e => cases ha
  | ok b =>
    cases ha
    exact ⟨0, rfl, hle, rfl, rfl⟩

/-! ## Numbers of a fixed width -/

theorem takes_number (count : Nat) (what : String) : Takes (number count what) fun _ taken => taken = count :=
  .of_consumes (consumes_number count what) fun _ _ h => h.1

theorem takes_ushort : Takes ushort fun _ taken => taken = 2 :=
  .of_consumes consumes_ushort fun v _ h => h ▸ Write.length_ushort v

theorem takes_short : Takes short fun _ taken => taken = 2 :=
  takes_ushort.map _ fun _ _ h => h

theorem takes_uint : Takes uint fun _ taken => taken = 4 :=
  .of_consumes consumes_uint fun v _ h => h ▸ Write.length_uint v

theorem takes_smallUint : Takes smallUint fun _ taken => taken = 4 :=
  .of_consumes consumes_smallUint fun v _ h => h.2 ▸ Write.length_uint v

theorem takes_int : Takes int fun _ taken => taken = 4 :=
  takes_uint.map _ fun _ _ h => h

theorem takes_long : Takes long fun _ taken => taken = 8 :=
  ((takes_number 8 "u8").map _ fun _ _ h => h).map _ fun _ _ h => h

theorem takes_skip (count : Nat) : Takes (skip count) fun _ taken => taken = count :=
  .of_consumes (consumes_skip count) fun _ _ h => h

/-- A number of some bytes comes with its sign. -/
theorem takes_sizedSigned {size : Nat} (hpos : 0 < size) (hle : size ≤ 8) : Takes (sizedSigned size) fun n taken =>
    taken = size ∧ ∃ raw : Nat, n = Int64.ofInt (Int.bmod raw (byteBound size)) := by
  have hraw : Takes (sizedUnsigned size) fun _ taken => taken = size := by
    unfold sizedUnsigned
    rw [if_neg (by omega)]
    exact (takes_number size _).map _ fun _ _ h => h
  exact hraw.map _ fun raw _ h => ⟨h, raw.toNat, rfl⟩

/-- A step that is repeated. -/
theorem Takes.times {step : Read α} {P : α → Prop} {size : Nat} (h : Takes step fun a taken => taken = size ∧ P a)
    (count : Nat) :
    Takes (Read.times step count) fun as taken => as.length = count ∧ taken = count * size ∧ ∀ a ∈ as, P a := by
  induction count with
  | zero => exact pure ⟨rfl, (Nat.zero_mul _).symm, fun _ h => (nomatch h)⟩
  | succ count ih =>
    refine h.bind fun a taken ⟨htaken, ha⟩ => ih.map _ fun as more ⟨hlength, hmore, has⟩ => ⟨?_, ?_, ?_⟩
    · rw [List.length_cons, hlength]
    · rw [htaken, hmore, Nat.succ_mul, Nat.add_comm]
    · exact List.forall_mem_cons.mpr ⟨ha, has⟩

end Dalvik.Read
