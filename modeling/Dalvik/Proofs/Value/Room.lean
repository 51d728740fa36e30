import Dalvik.Proofs.Leb128
import Dalvik.Proofs.Value.Encode
import Mathlib.Algebra.Order.BigOperators.Group.List

/-!
# The room of values

Whatever numbering a value is written with, its form takes up at most `Value.room`
bytes: a number or an index at most nine, and lists and annotations what their members
take up.
-/

namespace Dalvik

/-! ## Forms one behind the other -/

/-- Forms take up at most the room of what they are made of. -/
theorem length_flatten_le_sum {α : Type} {room : α → Nat} {items : List α} {forms : List (List UInt8)}
    (h : List.Forall₂ (fun a form => form.length ≤ room a) items forms) :
    forms.flatten.length ≤ (items.map room).sum := by
  induction h with
  | nil => exact Nat.le_refl _
  | cons hform _ ih =>
    rw [List.flatten_cons, List.length_append, List.map_cons, List.sum_cons]
    exact Nat.add_le_add hform ih

namespace Value

mutual

/-- The bytes that a value takes up at most. -/
def room : Value → Nat
  | array values => 1 + Leb128.maxLength + roomOfEach values
  | nested _ elements => 1 + 2 * Leb128.maxLength + roomOfElements elements
  | _ => 9
termination_by structural v => v

/-- The bytes that values take up at most. -/
def roomOfEach : List Value → Nat
  | [] => 0
  | v :: vs => v.room + roomOfEach vs
termination_by structural vs => vs

/-- The bytes that elements of an annotation take up at most. -/
def roomOfElements : List (String × Value) → Nat
  | [] => 0
  | (_, v) :: es => Leb128.maxLength + v.room + roomOfElements es
termination_by structural es => es

end

theorem roomOfElements_eq (elements : Elements) :
    roomOfElements elements = (elements.map fun e => Leb128.maxLength + e.2.room).sum := by
  induction elements with
  | nil => rfl
  | cons e elements ih => rw [roomOfElements, List.map_cons, List.sum_cons, ih]

/-! ## Numbers -/

theorem getD_find?_le {sizes : List Nat} {p : Nat → Bool} {most : Nat} (h : ∀ k ∈ sizes, k ≤ most) :
    (sizes.find? p).getD most ≤ most := by
  cases hfound : sizes.find? p with
  | none => exact Nat.le_refl _
  | some k => exact h k (List.mem_of_find?_eq_some hfound)

theorem length_writeSigned_le (tag : UInt8) (n : Int) : (writeSigned tag n).length ≤ 9 := by
  have hsize : signedSize n ≤ 8 := getD_find?_le (by decide)
  rw [writeSigned, List.length_cons, LittleEndian.length_encode]
  omega

theorem length_writeUnsigned_le (tag : UInt8) (n : Nat) : (writeUnsigned tag n).length ≤ 9 := by
  have hsize : unsignedSize n ≤ 8 := getD_find?_le (by decide)
  rw [writeUnsigned, List.length_cons, LittleEndian.length_encode]
  omega

theorem length_writeRight_le (tag : UInt8) (n : Nat) {width : Nat} (hwidth : width ≤ 8) :
    (writeRight tag n width).length ≤ 9 := by
  have hsize : rightSize n width ≤ width := getD_find?_le fun k hk => by
    have := List.mem_range'_1.mp hk
    omega
  rw [writeRight, List.length_cons, LittleEndian.length_encode]
  omega

theorem length_writeIndex_le {tag : UInt8} {index : Result UInt32} {form : List UInt8}
    (h : writeIndex tag index = .ok form) : form.length ≤ 9 := by
  obtain ⟨i, -, rfl⟩ := Result.map_eq_ok h
  exact length_writeUnsigned_le tag i.toNat

/-! ## Values -/

variable {n : ValueNumbering}

/-- The body of an annotation takes up at most the room of its elements, of their number
and of its type. -/
theorem length_encodeBody_le_of {type : String} {elements : Elements} {form : List UInt8}
    (h : encodeBody n type elements = .ok form)
    (helements : ∀ e ∈ elements, ∀ body, e.2.encode n = .ok body → body.length ≤ e.2.room) :
    form.length ≤ 2 * Leb128.maxLength + roomOfElements elements := by
  obtain ⟨typeIndex, parts, -, -, hparts, rfl⟩ := exists_parts h
  have hlength : parts.flatten.length ≤ roomOfElements elements := by
    rw [roomOfElements_eq, ← ((List.mergeSort_perm elements _).map _).sum_eq]
    refine length_flatten_le_sum (forall₂_imp_of_mem hparts fun e he part _ ⟨body, hbody, hpart⟩ => ?_)
    rw [hpart, List.length_append]
    exact Nat.add_le_add (Leb128.length_encodeUnsigned _) (helements e (List.mem_mergeSort.mp he) body hbody)
  have htype := Leb128.length_encodeUnsigned typeIndex
  have hcount := Leb128.length_encodeUnsigned (UInt32.ofNat elements.length)
  simp only [List.length_append, Write.uleb128]
  omega

mutual

/-- A value takes up at most its room. -/
theorem length_encode_le (v : Value) {form : List UInt8} (h : v.encode n = .ok form) : form.length ≤ v.room := by
  cases v with
  | byte v | null | boolean b =>
    cases h
    simp [room]
  | short v | int v | long v =>
    cases h
    exact length_writeSigned_le ..
  | char v =>
    cases h
    exact length_writeUnsigned_le ..
  | float bits | double bits =>
    cases h
    exact length_writeRight_le _ _ (by decide)
  | proto q | handle k | string s | type d | field f | method m | enum f => exact length_writeIndex_le h
  | array vs =>
    obtain ⟨body, hbody, h⟩ := Result.bind_eq_ok h
    cases h
    have hcount := Leb128.length_encodeUnsigned (UInt32.ofNat vs.length)
    have hvalues := length_encodeEach_le vs hbody
    rw [List.cons_append, List.length_cons, List.length_append, room]
    unfold Write.uleb128
    omega
  | nested t es =>
    obtain ⟨body, hbody, h⟩ := Result.bind_eq_ok h
    cases h
    have helements := length_encodeBody_le_of (n := n) hbody (length_encodeElements_le es)
    rw [List.length_cons, room]
    omega

/-- Values one after the other take up at most the room of all of them. -/
theorem length_encodeEach_le (vs : List Value) {form : List UInt8} (h : encodeEach n vs = .ok form) :
    form.length ≤ roomOfEach vs := by
  match vs with
  | [] =>
    cases h
    exact Nat.le_refl _
  | v :: vs =>
    obtain ⟨first, hfirst, h⟩ := Result.bind_eq_ok h
    obtain ⟨rest, hrest, h⟩ := Result.bind_eq_ok h
    cases h
    rw [List.length_append, roomOfEach]
    exact Nat.add_le_add (length_encode_le v hfirst) (length_encodeEach_le vs hrest)

theorem length_encodeElements_le (es : Elements) :
    ∀ e ∈ es, ∀ body, e.2.encode n = .ok body → body.length ≤ e.2.room := by
  match es with
  | [] => exact fun _ he => nomatch he
  | (_, v) :: es =>
    exact List.forall_mem_cons.mpr ⟨fun _ hbody => length_encode_le v hbody, length_encodeElements_le es⟩

end

theorem length_encodeArray_le {vs : List Value} {form : List UInt8} (h : encodeArray n vs = .ok form) :
    form.length ≤ Leb128.maxLength + roomOfEach vs := by
  obtain ⟨body, hbody, h⟩ := Result.bind_eq_ok h
  cases h
  rw [List.length_append]
  exact Nat.add_le_add (Leb128.length_encodeUnsigned _) (length_encodeEach_le vs hbody)

theorem length_encodeBody_le {type : String} {elements : Elements} {form : List UInt8}
    (h : encodeBody n type elements = .ok form) : form.length ≤ 2 * Leb128.maxLength + roomOfElements elements :=
  length_encodeBody_le_of h (length_encodeElements_le elements)

end Value

end Dalvik
