import Dalvik.Proofs.Numbers
import Dalvik.Value.Decode
import Dalvik.Value.Encode

/-!
# Numbers inside values

A number inside a value takes the fewest bytes that hold it, and the head byte
says how many. `yields_writeSigned` and its like read such numbers back.
-/

namespace Dalvik.Value

open Read

/-! ## Fewest bytes -/

/-- The first size that fits is no greater than any size that fits. -/
theorem find_size (fits : Nat → Bool) {width most : Nat} (hpos : 0 < width) (hle : width ≤ most)
    (h : fits width = true) : 0 < ((List.range' 1 (most - 1)).find? fits).getD most ∧
      ((List.range' 1 (most - 1)).find? fits).getD most ≤ width ∧
      fits (((List.range' 1 (most - 1)).find? fits).getD most) = true := by
  cases hfind : (List.range' 1 (most - 1)).find? fits with
  | none =>
    rw [List.find?_range'_eq_none] at hfind
    have hmost : width = most := by
      by_contra hne
      have := hfind width hpos (by omega)
      rw [h] at this
      cases this
    subst hmost
    exact ⟨hpos, Nat.le_refl _, h⟩
  | some size =>
    rw [List.find?_range'_eq_some] at hfind
    obtain ⟨hsize, hmem, hmin⟩ := hfind
    rw [List.mem_range'_1] at hmem
    refine ⟨hmem.1, Nat.le_of_not_lt fun hlt => ?_, hsize⟩
    have := hmin width hpos hlt
    rw [h] at this
    cases this

theorem signedSize_spec {n : Int} {width : Nat} (hpos : 0 < width) (hle : width ≤ 8)
    (h : -(byteBound width / 2 : Nat) ≤ n) (h' : n < (byteBound width / 2 : Nat)) :
    0 < signedSize n ∧ signedSize n ≤ width ∧ -(byteBound (signedSize n) / 2 : Nat) ≤ n ∧
      n < (byteBound (signedSize n) / 2 : Nat) := by
  have := find_size (fun k => -(byteBound k / 2 : Nat) ≤ n && n < (byteBound k / 2 : Nat)) hpos hle
    (by simpa using ⟨h, h'⟩)
  simpa [signedSize, List.range'] using this

theorem unsignedSize_spec {n width : Nat} (hpos : 0 < width) (hle : width ≤ 8) (h : n < byteBound width) :
    0 < unsignedSize n ∧ unsignedSize n ≤ width ∧ n < byteBound (unsignedSize n) := by
  have := find_size (fun k => n < byteBound k) hpos hle (by simpa using h)
  simpa [unsignedSize, List.range'] using this

theorem rightSize_spec (n : Nat) {width : Nat} (hpos : 0 < width) :
    0 < rightSize n width ∧ rightSize n width ≤ width ∧ n % byteBound (width - rightSize n width) = 0 := by
  have := find_size (fun k => n % byteBound (width - k) = 0) hpos (Nat.le_refl width)
    (by simp [byteBound, Nat.mod_one])
  simpa [rightSize] using this

theorem rightSize_le {n size width : Nat} (hpos : 0 < size) (hle : size ≤ width)
    (h : n % byteBound (width - size) = 0) : rightSize n width ≤ size := by
  have := find_size (fun k => n % byteBound (width - k) = 0) hpos hle (by simpa using h)
  exact this.2.1

/-! ## Heads -/

variable {r : ValueResolver} {one : Read Value} {tag : UInt8} {body : List UInt8} {v : Value}

theorem toNat_head (htag : tag.toNat < 0x20) {size : Nat} (hpos : 0 < size) (hle : size ≤ 8) :
    (head tag size).toNat = tag.toNat + 0x20 * (size - 1) := by
  simp only [head, UInt8.toNat_ofNat']
  omega

/-- A value is read by its head and then by what that says. -/
theorem yields_head {depth size : Nat} (htag : tag.toNat < 0x20) (hpos : 0 < size) (hle : size ≤ 8)
    (h : ∀ start, Yields (readContent r (decodeWithin r depth) tag.toNat (size - 1) start) body v) :
    Yields (decodeWithin r (depth + 1)) (head tag size :: body) v := by
  have hhead := toNat_head htag hpos hle
  have htagOf : (head tag size).toNat % 0x20 = tag.toNat := by omega
  have hsizeOf : (head tag size).toNat / 0x20 = size - 1 := by omega
  refine .tell fun start => (yields_ubyte (head tag size)).bind ?_
  dsimp only
  rw [htagOf, hsizeOf]
  exact h start

/-- A value of a number of bytes that the head says. -/
theorem yields_sized {depth size most : Nat} {β : Type} (step : Nat → Read β) {make : β → Value} {b : β}
    (htag : tag.toNat < 0x20) (hpos : 0 < size) (hle : size ≤ most) (hmost : most ≤ 8)
    (hcontent : ∀ one argument start, readContent r one tag.toNat argument start = do
      checkSize tag.toNat argument start most
      return make (← step (argument + 1)))
    (h : Yields (step size) body b) : Yields (decodeWithin r (depth + 1)) (head tag size :: body) (make b) := by
  refine yields_head htag hpos (by omega) fun start => ?_
  rw [hcontent, Nat.sub_add_cancel hpos]
  have hcheck : Yields (checkSize tag.toNat (size - 1) start most) [] () := by
    rw [checkSize, if_neg (by omega)]
    exact .pure ()
  exact hcheck.nil_bind (h.bind_pure make)

/-! ## Numbers with their heads -/

variable {depth width : Nat}

/-- A signed number that fits into `width` bytes. -/
theorem yields_writeSigned (htag : tag.toNat < 0x20) (hpos : 0 < width) (hle : width ≤ 8) {n : Int}
    (h : -(byteBound width / 2 : Nat) ≤ n) (h' : n < (byteBound width / 2 : Nat)) {make : Int64 → Value}
    (hmake : make (Int64.ofInt n) = v)
    (hcontent : ∀ one argument start, readContent r one tag.toNat argument start = do
      checkSize tag.toNat argument start width
      return make (← sizedSigned (argument + 1))) :
    Yields (decodeWithin r (depth + 1)) (writeSigned tag n) v := by
  obtain ⟨hsize, hwidth, hlow, hhigh⟩ := signedSize_spec hpos hle h h'
  rw [← hmake]
  exact yields_sized sizedSigned htag hsize hwidth hle hcontent (yields_sizedSigned hsize (by omega) hlow hhigh)

/-- An unsigned number that fits into `width` bytes. -/
theorem yields_writeUnsigned (htag : tag.toNat < 0x20) (hpos : 0 < width) (hle : width ≤ 8) {n : Nat}
    (h : n < byteBound width) {make : UInt64 → Value} (hmake : make (UInt64.ofNat n) = v)
    (hcontent : ∀ one argument start, readContent r one tag.toNat argument start = do
      checkSize tag.toNat argument start width
      return make (← sizedUnsigned (argument + 1))) :
    Yields (decodeWithin r (depth + 1)) (writeUnsigned tag n) v := by
  obtain ⟨hsize, hwidth, hn⟩ := unsignedSize_spec hpos hle h
  rw [← hmake]
  exact yields_sized sizedUnsigned htag hsize hwidth hle hcontent (yields_sizedUnsigned hsize (by omega) hn)

/-- The bits of a number of `width` bytes. -/
theorem yields_writeRight (htag : tag.toNat < 0x20) (hpos : 0 < width) (hle : width ≤ 8) {n : Nat}
    (h : n < byteBound width) {make : UInt64 → Value} (hmake : make (UInt64.ofNat n) = v)
    (hcontent : ∀ one argument start, readContent r one tag.toNat argument start = do
      checkSize tag.toNat argument start width
      return make (← sizedRight (argument + 1) width)) :
    Yields (decodeWithin r (depth + 1)) (writeRight tag n width) v := by
  obtain ⟨hsize, hwidth, hlow⟩ := rightSize_spec n hpos
  rw [← hmake]
  exact yields_sized (fun size => sizedRight size width) htag hsize hwidth hle hcontent
    (yields_sizedRight hsize hwidth hle hlow h)

theorem yields_ofResult {α : Type} {outcome : Result α} {a : α} (h : outcome = .ok a) :
    Yields (Read.ofResult outcome) [] a := by
  subst h
  exact fun _ _ _ => rfl

theorem requires_ofResult {α : Type} (outcome : Result α) :
    Requires (Read.ofResult outcome) [] (∃ a, outcome = .ok a) := fun _ _ _ _ _ hon => by
  cases outcome with
  | error e => cases hon
  | ok a => exact ⟨a, rfl⟩

/-- An index is read as what it stands for. -/
theorem yields_writeIndex {α : Type} (htag : tag.toNat < 0x20) {find : UInt32 → Result α} {make : α → Value}
    {index : UInt32} {a : α} (hfind : find index = .ok a) (hmake : make a = v)
    (hcontent : ∀ one argument start, readContent r one tag.toNat argument start = do
      checkSize tag.toNat argument start 4
      return make (← readIndexed find (argument + 1))) :
    Yields (decodeWithin r (depth + 1)) (writeUnsigned tag index.toNat) v := by
  have hindex : index.toNat < byteBound 4 := index.toNat_lt
  obtain ⟨hsize, hwidth, hn⟩ := unsignedSize_spec (by decide) (by decide) hindex
  rw [← hmake]
  refine yields_sized (readIndexed find) htag hsize hwidth (by decide) hcontent ?_
  refine (yields_sizedUnsigned hsize (by omega) hn).bind_nil (yields_ofResult ?_)
  rw [toNat_ofNat_of_lt (by decide) hindex, UInt32.ofNat_toNat, hfind]

end Dalvik.Value
