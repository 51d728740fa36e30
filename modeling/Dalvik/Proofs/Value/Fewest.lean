import Dalvik.Proofs.Value.Indexed
import Dalvik.Proofs.Value.Skip

/-!
# Values take the fewest bytes

Behind the head of a number, a character, a float or a reference stands a number
of as many bytes as the head says (`readContent_eq`). The bytes that are written
there are the fewest: no head with a smaller size has the same number behind it,
whatever bytes follow (`exists_fewest`).
-/

namespace Dalvik.Value

open Read

/-- The value is a number, a character, a float or a reference. -/
def IsScalar : Value → Prop
  | array _ => False
  | nested _ _ => False
  | null => False
  | boolean _ => False
  | _ => True

/-- Reads the number behind a head with this tag and size: a signed or an unsigned
one, the bits of a float, or an index. -/
def readNumber (tag size : Nat) : Read Int :=
  match tag with
  | 0x00 => do return (← Read.byte).toInt
  | 0x02 | 0x04 | 0x06 => do return (← sizedSigned size).toInt
  | 0x10 => do return (← sizedRight size 4).toNat
  | 0x11 => do return (← sizedRight size 8).toNat
  | _ => do return (← sizedUnsigned size).toNat

/-- The most bytes that a head with this tag may announce. -/
def mostBytes (tag : Nat) : Nat :=
  match tag with
  | 0x00 => 1
  | 0x02 | 0x03 => 2
  | 0x06 | 0x11 => 8
  | _ => 4

/-- The value of the kind of `w` that a number stands for. -/
def ofNumber (r : ValueResolver) (w : Value) (x : Int) : Result Value :=
  match w with
  | byte _ => .ok (byte (Int8.ofInt x))
  | short _ => .ok (short (Int16.ofInt x))
  | char _ => .ok (char (UInt16.ofNat x.toNat))
  | int _ => .ok (int (Int32.ofInt x))
  | long _ => .ok (long (Int64.ofInt x))
  | float _ => .ok (float (UInt32.ofNat x.toNat))
  | double _ => .ok (double (UInt64.ofNat x.toNat))
  | proto _ => (r.proto (UInt32.ofNat x.toNat)).map proto
  | handle _ => (r.handle (UInt32.ofNat x.toNat)).map handle
  | string _ => (r.string (UInt32.ofNat x.toNat)).map string
  | type _ => (r.type (UInt32.ofNat x.toNat)).map type
  | field _ => (r.field (UInt32.ofNat x.toNat)).map field
  | method _ => (r.method (UInt32.ofNat x.toNat)).map method
  | enum _ => (r.field (UInt32.ofNat x.toNat)).map enum
  | _ => .ok w

variable {r : ValueResolver} {n : ValueNumbering}

theorem ofResult_map {α β : Type} (outcome : Result α) (f : α → β) :
    Read.ofResult (outcome.map f) = do return f (← Read.ofResult outcome) := by
  cases outcome <;> rfl

theorem ofResult_ok {α : Type} (a : α) : Read.ofResult (.ok a : Result α) = pure a := rfl

/-- What stands behind the head of a scalar is read by its number. -/
theorem readContent_eq {w : Value} (h : w.IsScalar) (one : Read Value) (argument start : Nat) :
    readContent r one w.tag.toNat argument start =
      checkSize w.tag.toNat argument start (mostBytes w.tag.toNat) >>= fun _ =>
        readNumber w.tag.toNat (argument + 1) >>= fun x => Read.ofResult (ofNumber r w x) := by
  cases w with
  | array | nested | null | boolean => cases h
  | _ =>
    simp only [readContent, readIndexed, readNumber, mostBytes, ofNumber, tag, UInt8.reduceToNat, bind_assoc, pure_bind,
      ofResult_ok, ofResult_map, Int.toNat_natCast, Int8.ofInt_toInt, Int64.ofInt_toInt, UInt64.ofNat_toNat]

/-! ## Numbers of a size -/

section bounds

variable {bytes : Bytes} {offset next size : Nat}

theorem toNat_lt_of_sizedUnsigned {x : UInt64} (hle : size ≤ 8)
    (h : (sizedUnsigned size).on bytes offset = (.ok x, next)) : x.toNat < byteBound size := by
  unfold sizedUnsigned at h
  split at h
  · cases h
  · obtain ⟨raw, middle, hraw, h⟩ := on_bind_eq_ok h
    obtain ⟨form, last, -, hraw⟩ := on_bind_eq_ok hraw
    cases hraw
    cases h
    have hlt := LittleEndian.decode_lt form.toList
    rw [Vector.length_toList] at hlt
    rwa [toNat_ofNat_of_lt hle hlt]

theorem toInt_bounds_of_sizedSigned {x : Int64} (hpos : 0 < size) (hle : size ≤ 8)
    (h : (sizedSigned size).on bytes offset = (.ok x, next)) :
    -(byteBound size / 2 : Nat) ≤ x.toInt ∧ x.toInt < (byteBound size / 2 : Nat) := by
  obtain ⟨raw, middle, -, h⟩ := on_bind_eq_ok h
  cases h
  obtain ⟨width, rfl⟩ := Nat.exists_eq_add_one_of_ne_zero (Nat.ne_of_gt hpos)
  have hbound := byteBound_pos (width + 1)
  have heven := byteBound_succ width
  have hlow := Int.le_bmod (x := raw.toNat) hbound
  have hhigh := Int.bmod_lt (x := raw.toNat) hbound
  have hlow : -(byteBound (width + 1) / 2 : Nat) ≤ Int.bmod raw.toNat (byteBound (width + 1)) := by omega
  have hhigh : Int.bmod raw.toNat (byteBound (width + 1)) < (byteBound (width + 1) / 2 : Nat) := by omega
  rw [toInt_ofInt hle hlow hhigh]
  exact ⟨hlow, hhigh⟩

theorem mod_eq_zero_of_sizedRight {x : UInt64} {width : Nat} (hwidth : width ≤ 8)
    (h : (sizedRight size width).on bytes offset = (.ok x, next)) :
    x.toNat % byteBound (width - size) = 0 := by
  unfold sizedRight at h
  split at h
  · cases h
  · obtain ⟨raw, middle, hraw, h⟩ := on_bind_eq_ok h
    cases h
    have hraw := toNat_lt_of_sizedUnsigned (by omega) hraw
    have hlt : raw.toNat * byteBound (width - size) < byteBound width := by
      have hmul : byteBound width = byteBound size * byteBound (width - size) := by
        rw [← byteBound_add, Nat.add_sub_cancel' (by omega)]
      rw [hmul]
      exact Nat.mul_lt_mul_of_pos_right hraw (byteBound_pos _)
    rw [toNat_ofNat_of_lt hwidth hlt, Nat.mul_mod_left]

end bounds

/-- The number is read from the body, and it is not read from fewer bytes. -/
structure Fewest (step : Nat → Read Int) (body : List UInt8) (x : Int) : Prop where
  yields : Yields (step body.length) body x
  least : ∀ size, 0 < size → size < body.length → ∀ (bytes : Bytes) (offset next : Nat),
    (step size).on bytes offset ≠ (.ok x, next)

theorem Fewest.of_size {step : Nat → Read Int} {body : List UInt8} {x : Int} {size : Nat} (hlength : body.length = size)
    (hyields : Yields (step size) body x)
    (hleast : ∀ width, 0 < width → width < size → ∀ (bytes : Bytes) (offset next : Nat),
      (step width).on bytes offset = (.ok x, next) → size ≤ width) : Fewest step body x := by
  subst hlength
  exact ⟨hyields, fun width hpos hlt bytes offset next h =>
    Nat.not_le.mpr hlt (hleast width hpos hlt bytes offset next h)⟩

theorem exists_fewest_signed {x : Int} (tag : UInt8) (width : Nat) (hpos : 0 < width) (hle : width ≤ 8)
    (h : -(byteBound width / 2 : Nat) ≤ x) (h' : x < (byteBound width / 2 : Nat)) :
    ∃ body, writeSigned tag x = head tag body.length :: body ∧
      Fewest (fun size => do return (← sizedSigned size).toInt) body x := by
  obtain ⟨hsize, hwidth, hlow, hhigh⟩ := signedSize_spec hpos hle h h'
  have hlength := LittleEndian.length_encode (signedSize x) (x % (byteBound (signedSize x) : Nat)).toNat
  have hyields := (yields_sizedSigned hsize (by omega) hlow hhigh).bind_pure Int64.toInt
  rw [toInt_ofInt (by omega) hlow hhigh] at hyields
  refine ⟨_, by rw [writeSigned, hlength], .of_size hlength hyields fun size hpos hlt bytes offset next hread => ?_⟩
  obtain ⟨y, middle, hy, hread⟩ := on_bind_eq_ok hread
  cases hread
  obtain ⟨hlow, hhigh⟩ := toInt_bounds_of_sizedSigned hpos (by omega) hy
  exact (signedSize_spec hpos (by omega) hlow hhigh).2.1

theorem exists_fewest_unsigned {x : Nat} (tag : UInt8) (width : Nat) (hpos : 0 < width) (hle : width ≤ 8)
    (h : x < byteBound width) : ∃ body, writeUnsigned tag x = head tag body.length :: body ∧
      Fewest (fun size => do return (← sizedUnsigned size).toNat) body x := by
  obtain ⟨hsize, hwidth, hlt⟩ := unsignedSize_spec hpos hle h
  have hlength := LittleEndian.length_encode (unsignedSize x) x
  have hyields := (yields_sizedUnsigned hsize (by omega) hlt).bind_pure fun y => (y.toNat : Int)
  rw [toNat_ofNat_of_lt (by omega) hlt] at hyields
  refine ⟨_, by rw [writeUnsigned, hlength], .of_size hlength hyields fun size hpos hlt bytes offset next hread => ?_⟩
  obtain ⟨y, middle, hy, hread⟩ := on_bind_eq_ok hread
  obtain rfl : y.toNat = x := Int.ofNat_inj.mp (Except.ok.inj (Prod.mk.inj hread).1)
  exact (unsignedSize_spec hpos (by omega) (toNat_lt_of_sizedUnsigned (by omega) hy)).2.1

theorem exists_fewest_right {x : Nat} (tag : UInt8) (width : Nat) (hpos : 0 < width) (hle : width ≤ 8)
    (h : x < byteBound width) : ∃ body, writeRight tag x width = head tag body.length :: body ∧
      Fewest (fun size => do return (← sizedRight size width).toNat) body x := by
  obtain ⟨hsize, hwidth, hlow⟩ := rightSize_spec x hpos
  have hlength := LittleEndian.length_encode (rightSize x width) (x / byteBound (width - rightSize x width))
  have hyields := (yields_sizedRight hsize hwidth hle hlow h).bind_pure fun y => (y.toNat : Int)
  rw [toNat_ofNat_of_lt hle h] at hyields
  refine ⟨_, by rw [writeRight, hlength], .of_size hlength hyields fun size hpos hlt bytes offset next hread => ?_⟩
  obtain ⟨y, middle, hy, hread⟩ := on_bind_eq_ok hread
  obtain rfl : y.toNat = x := Int.ofNat_inj.mp (Except.ok.inj (Prod.mk.inj hread).1)
  exact rightSize_le hpos (by omega) (mod_eq_zero_of_sizedRight hle hy)

/-! ## Scalars -/

/-- The number of a reference is its index. -/
theorem exists_fewest_index {α : Type} {number : Result UInt32} {find : UInt32 → Result α} {make : α → Value} {a : α}
    {form : List UInt8} (tag : UInt8) (h : writeIndex tag number = .ok form)
    (hfind : ∀ {i}, number = .ok i → find i = .ok a) :
    ∃ body x, form = head tag body.length :: body ∧
      Fewest (fun size => do return (← sizedUnsigned size).toNat) body x ∧
      (find (UInt32.ofNat x.toNat)).map make = .ok (make a) := by
  obtain ⟨i, hi, rfl⟩ := Result.map_eq_ok h
  obtain ⟨body, hform, hfewest⟩ := exists_fewest_unsigned tag 4 (by decide) (by decide) i.toNat_lt
  refine ⟨body, _, hform, hfewest, ?_⟩
  rw [Int.toNat_natCast, UInt32.ofNat_toNat, hfind hi]
  rfl

/-- A scalar is written as its head and the fewest bytes for its number, and the number
stands for the scalar. -/
theorem exists_fewest {w : Value} {form : List UInt8} (hscalar : w.IsScalar) (htraced : w.Traced r n)
    (h : w.encode n = .ok form) :
    ∃ body x, form = head w.tag body.length :: body ∧ Fewest (readNumber w.tag.toNat) body x ∧
      ofNumber r w x = .ok w := by
  cases w with
  | array | nested | null | boolean => cases hscalar
  | byte v =>
    cases h
    refine ⟨[v.toUInt8], v.toInt, rfl, ⟨?_, fun size hpos hlt => absurd hlt (Nat.not_lt.mpr hpos)⟩, ?_⟩
    · exact ((yields_ubyte v.toUInt8).bind_pure UInt8.toInt8).bind_pure Int8.toInt
    · rw [ofNumber, Int8.ofInt_toInt]
  | short v =>
    cases h
    obtain ⟨body, hform, hfewest⟩ := exists_fewest_signed 0x02 2 (by decide) (by decide) v.le_toInt v.toInt_lt
    exact ⟨body, _, hform, hfewest, by rw [ofNumber, Int16.ofInt_toInt]⟩
  | int v =>
    cases h
    obtain ⟨body, hform, hfewest⟩ := exists_fewest_signed 0x04 4 (by decide) (by decide) v.le_toInt v.toInt_lt
    exact ⟨body, _, hform, hfewest, by rw [ofNumber, Int32.ofInt_toInt]⟩
  | long v =>
    cases h
    obtain ⟨body, hform, hfewest⟩ := exists_fewest_signed 0x06 8 (by decide) (by decide) v.le_toInt v.toInt_lt
    exact ⟨body, _, hform, hfewest, by rw [ofNumber, Int64.ofInt_toInt]⟩
  | char v =>
    cases h
    obtain ⟨body, hform, hfewest⟩ := exists_fewest_unsigned 0x03 2 (by decide) (by decide) v.toNat_lt
    exact ⟨body, _, hform, hfewest, by rw [ofNumber, Int.toNat_natCast, UInt16.ofNat_toNat]⟩
  | float bits =>
    cases h
    obtain ⟨body, hform, hfewest⟩ := exists_fewest_right 0x10 4 (by decide) (by decide) bits.toNat_lt
    exact ⟨body, _, hform, hfewest, by rw [ofNumber, Int.toNat_natCast, UInt32.ofNat_toNat]⟩
  | double bits =>
    cases h
    obtain ⟨body, hform, hfewest⟩ := exists_fewest_right 0x11 8 (by decide) (by decide) bits.toNat_lt
    exact ⟨body, _, hform, hfewest, by rw [ofNumber, Int.toNat_natCast, UInt64.ofNat_toNat]⟩
  | proto => exact exists_fewest_index 0x15 h htraced
  | handle => exact exists_fewest_index 0x16 h htraced
  | string => exact exists_fewest_index 0x17 h htraced
  | type => exact exists_fewest_index 0x18 h htraced
  | field => exact exists_fewest_index 0x19 h htraced
  | method => exact exists_fewest_index 0x1a h htraced
  | enum => exact exists_fewest_index 0x1b h htraced

/-- A value that could be written is read back from its bytes, whatever stands in front
of them and behind them, with the elements of its annotations in the order of the
indices of their names. For that the resolver has to find what the numbering was
given, but only for the references, types and names inside the value, so that
different names have different indices. Every scalar inside the value stands in
these bytes with the fewest bytes behind its head: that many bytes are read as its
number, and with a smaller size in the head the number that is read is another
one. -/
theorem decode_encode_indexed {v : Value} {form : List UInt8} (htraced : ∀ w ∈ v.parts, w.Traced r n)
    (h : v.encode n = .ok form) :
    (∀ before after : List UInt8, (decode r).on (before ++ form ++ after).toArray before.length =
      (.ok (v.indexed n), before.length + form.length)) ∧
    ∀ w ∈ v.parts, w.IsScalar → ∃ (body : List UInt8) (x : Int),
      w.encode n = .ok (head w.tag body.length :: body) ∧ head w.tag body.length :: body <:+: form ∧
      (∀ one argument start, readContent r one w.tag.toNat argument start =
        checkSize w.tag.toNat argument start (mostBytes w.tag.toNat) >>= fun _ =>
          readNumber w.tag.toNat (argument + 1) >>= fun x => Read.ofResult (ofNumber r w x)) ∧
      Fewest (readNumber w.tag.toNat) body x ∧ ofNumber r w x = .ok w := by
  refine ⟨fun before after => ?_, fun w hw hscalar => ?_⟩
  · have hyields : Yields (decode r) form (v.indexed n) :=
      .remaining fun count hcount => yields_indexed v htraced h (by omega)
    exact hyields _ _ ⟨before, after, List.toList_toArray, rfl⟩
  · obtain ⟨part, hpart, hinfix⟩ := exists_form_of_mem_parts v h w hw
    obtain ⟨body, x, rfl, hfewest, hnumber⟩ := exists_fewest hscalar (htraced w hw) hpart
    exact ⟨body, x, hpart, hinfix, readContent_eq hscalar, hfewest, hnumber⟩

/-- The name of the first element has the greater index, so that the second is read
first. -/
theorem decode_encode_indexed_nested :
    let r : ValueResolver :=
      { string := fun i => .ok (if i = 0x100 then "a" else "b")
        type := fun _ => .ok "LA;"
        field := fun _ => .ok default
        method := fun _ => .ok default
        proto := fun _ => .ok default
        handle := fun _ => .fail (.skippedTag 0) }
    let n : ValueNumbering :=
      { string := fun s => .ok (if s = "a" then 0x100 else 2)
        type := fun _ => .ok 7
        field := fun _ => .ok 0
        method := fun _ => .ok 0
        proto := fun _ => .ok 0
        handle := fun _ => .ok 0 }
    let v := nested "LA;" [("a", int 0x80), ("b", array [float 0x3f800000, string "a"])]
    let form := [0x1d, 7, 2, 2, 0x1c, 2, 0x30, 0x80, 0x3f, 0x37, 0x00, 0x01, 0x80, 0x02, 0x24, 0x80, 0x00]
    (∀ w ∈ v.parts, w.Traced r n) ∧ v.encode n = .ok form ∧
      v.indexed n = nested "LA;" [("b", array [float 0x3f800000, string "a"]), ("a", int 0x80)] ∧
      (∀ before after : List UInt8, (decode r).on (before ++ form ++ after).toArray before.length =
        (.ok (v.indexed n), before.length + form.length)) := by
  intro r n v form
  have htraced : ∀ w ∈ v.parts, w.Traced r n := by
    simp only [v, parts, partsOfElements, partsOfEach, List.append_nil, List.cons_append, List.nil_append,
      List.forall_mem_cons]
    simp [Traced, r, n, extentBound]
  have hsorted (a b : Result (List UInt8)) :
      [((0x100 : UInt32), a), (2, b)].mergeSort (fun a b => a.1 ≤ b.1) = [(2, b), (0x100, a)] := by
    simp [List.mergeSort, List.MergeSort.Internal.splitInTwo]
  have hform : v.encode n = .ok form := by
    simp only [v, n, encode, writeBody, elementForms, List.mapM_cons, List.mapM_nil, Result.ok_bind,
      Result.pure_eq_ok, reduceIte, String.reduceEq, hsorted]
    decide +kernel
  have hindexed : v.indexed n = nested "LA;" [("b", array [float 0x3f800000, string "a"]), ("a", int 0x80)] := by
    simp [v, indexed, indexedElements, indexedEach, Elements.indexed, ValueNumbering.place, n, Except.toOption,
      List.mergeSort, List.MergeSort.Internal.splitInTwo]
  exact ⟨htraced, hform, hindexed, (decode_encode_indexed htraced hform).1⟩

end Dalvik.Value
