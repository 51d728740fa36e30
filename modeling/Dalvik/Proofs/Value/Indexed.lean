import Dalvik.Proofs.Value.Encode
import Dalvik.Proofs.Value.Sizes

/-!
# Values are read in the order of their indices

Writing sorts the elements of every annotation inside a value by the indices of
their names. `yields_indexed`: a value is read with its elements in that order,
if the resolver finds what the numbering was given, for the references, types
and names inside the value.
-/

namespace Dalvik

namespace Value

/-! ## Values with their elements by indices -/

mutual

/-- A value with the elements of all annotations in it in the order of the
indices of their names. -/
def indexed (n : ValueNumbering) : Value → Value
  | array values => array (indexedEach n values)
  | nested t elements => nested t (Elements.indexed n (indexedElements n elements))
  | v => v
termination_by structural v => v

/-- Values with their elements in order. -/
def indexedEach (n : ValueNumbering) : List Value → List Value
  | [] => []
  | v :: vs => v.indexed n :: indexedEach n vs
termination_by structural vs => vs

/-- Elements with the elements of their values in order. -/
def indexedElements (n : ValueNumbering) : List (String × Value) → List (String × Value)
  | [] => []
  | (name, v) :: vs => (name, v.indexed n) :: indexedElements n vs
termination_by structural vs => vs

end

theorem indexedEach_eq (n : ValueNumbering) (vs : List Value) : indexedEach n vs = vs.map (indexed n) := by
  induction vs with
  | nil => rfl
  | cons v vs ih => rw [indexedEach, ih, List.map_cons]

theorem indexedElements_eq (n : ValueNumbering) (es : Elements) :
    indexedElements n es = es.map fun e => (e.1, e.2.indexed n) := by
  induction es with
  | nil => rfl
  | cons e es ih => rw [indexedElements, ih, List.map_cons]

/-- The elements are sorted by their names, whatever happens to their values. -/
theorem indexed_indexedElements (n : ValueNumbering) (es : Elements) :
    Elements.indexed n (indexedElements n es) = (Elements.indexed n es).map fun e => (e.1, e.2.indexed n) := by
  rw [indexedElements_eq]
  exact (List.map_mergeSort (f := fun e : String × Value => (e.1, e.2.indexed n)) fun _ _ _ _ => rfl).symm

/-- What the numbering gives an index of the value itself, the resolver finds behind
that index, and the lengths and the indices of types and names are in bounds. The
values inside are left out. -/
def Traced (r : ValueResolver) (n : ValueNumbering) : Value → Prop
  | proto p => ∀ {i}, n.proto p = .ok i → r.proto i = .ok p
  | handle h => ∀ {i}, n.handle h = .ok i → r.handle i = .ok h
  | string s => ∀ {i}, n.string s = .ok i → r.string i = .ok s
  | type d => ∀ {i}, n.type d = .ok i → r.type i = .ok d
  | field f => ∀ {i}, n.field f = .ok i → r.field i = .ok f
  | method m => ∀ {i}, n.method m = .ok i → r.method i = .ok m
  | enum f => ∀ {i}, n.field f = .ok i → r.field i = .ok f
  | array values => values.length < extentBound
  | nested t elements => elements.length < extentBound ∧
    (∀ {i}, n.type t = .ok i → i.toNat < extentBound ∧ r.type i = .ok t) ∧
    ∀ e ∈ elements, ∀ {i}, n.string e.1 = .ok i → i.toNat < extentBound ∧ r.string i = .ok e.1
  | _ => True

open Read

variable {r : ValueResolver} {n : ValueNumbering}

/-! ## Forms -/

theorem encode_ne_nil {v : Value} {form : List UInt8} (h : v.encode n = .ok form) : form ≠ [] := by
  cases v with
  | proto | handle | string | type | field | method | enum =>
    obtain ⟨i, -, rfl⟩ := Result.map_eq_ok h
    exact List.cons_ne_nil _ _
  | array | nested =>
    obtain ⟨body, -, h⟩ := Result.bind_eq_ok h
    cases h
    exact List.cons_ne_nil _ _
  | _ =>
    cases h
    exact List.cons_ne_nil _ _

theorem toNat_ofNat_length {α : Type} {l : List α} (h : l.length < extentBound) :
    (UInt32.ofNat l.length).toNat = l.length :=
  UInt32.toNat_ofNat_of_lt' (Nat.lt_trans h (by decide))

/-- The body of an annotation begins with its type, and its elements follow, as many as
its form has bytes at most. They are read if their names and values are. -/
theorem exists_readElements {type : String} {elements : Elements} {form : List UInt8}
    (h : encodeBody n type elements = .ok form) (hcount : elements.length < extentBound)
    (hnames : ∀ e ∈ elements, ∀ {i}, n.string e.1 = .ok i → i.toNat < extentBound ∧ r.string i = .ok e.1) :
    ∃ typeIndex rest, n.type type = .ok typeIndex ∧ form = Write.uleb128 typeIndex ++ rest ∧
      ∀ one : Read Value, (∀ e ∈ elements, ∀ body, e.2.encode n = .ok body → body.length ≤ rest.length →
        Yields one body (e.2.indexed n)) →
        Yields (readElements r one) rest (Elements.indexed n (indexedElements n elements)) := by
  obtain ⟨typeIndex, parts, hindex, htype, hparts, rfl⟩ := exists_parts h
  refine ⟨typeIndex, _, htype, List.append_assoc .., fun one hone => ?_⟩
  rw [indexed_indexedElements]
  have hread : List.Forall₂ (Yields (readElement r one)) parts
      ((Elements.indexed n elements).map fun e => (e.1, e.2.indexed n)) := by
    rw [List.forall₂_map_right_iff]
    refine forall₂_imp_of_mem hparts.flip fun part hpart e he ⟨body, hbody, heq⟩ => ?_
    subst heq
    have he := List.mem_mergeSort.mp he
    have hlen := (List.infix_of_mem_flatten hpart).length_le
    obtain ⟨hlt, hstring⟩ := hnames e he (hindex e he)
    refine (yields_smallUleb128 hlt).bind ((yields_ofResult hstring).nil_bind ?_)
    refine (hone e he body hbody ?_).bind_pure fun v => (e.1, v)
    simp only [List.length_append] at hlen ⊢
    omega
  have hcountOf := toNat_ofNat_length hcount
  have htimes := Yields.times hread
  rw [List.length_map, Elements.indexed, List.length_mergeSort, ← Elements.indexed] at htimes
  refine (yields_smallUleb128 (hcountOf.symm ▸ hcount)).bind ?_
  rwa [hcountOf]

/-- A list of values with its number in front, if the values are read. -/
theorem yields_readArray {one : Read Value} {forms : List (List UInt8)} {vs : List Value}
    (hforms : List.Forall₂ (Yields one) forms vs) (hcount : vs.length < extentBound) :
    Yields (readArray one) (Write.uleb128 (UInt32.ofNat vs.length) ++ forms.flatten) vs := by
  have hcountOf := toNat_ofNat_length hcount
  refine (yields_smallUleb128 (hcountOf.symm ▸ hcount)).bind ?_
  rw [hcountOf]
  exact Yields.listFrom _ hforms 0

/-! ## Values without values inside -/

/-- The value has no values inside it. -/
def IsAtom : Value → Prop
  | array _ => False
  | nested _ _ => False
  | _ => True

section atoms

variable (depth : Nat)

theorem yields_null : Yields (decodeWithin r (depth + 1)) [0x1e] null := by
  show Yields _ [head 0x1e 1] _
  exact yields_head (by decide) (by decide) (by decide) fun _ => .pure null

theorem yields_boolean (b : Bool) : Yields (decodeWithin r (depth + 1)) [if b then 0x3f else 0x1f] (boolean b) := by
  cases b with
  | false =>
    show Yields _ [head 0x1f 1] _
    exact yields_head (by decide) (by decide) (by decide) fun _ => .pure _
  | true =>
    show Yields _ [head 0x1f 2] _
    exact yields_head (by decide) (by decide) (by decide) fun _ => .pure _

theorem yields_byte (v : Int8) : Yields (decodeWithin r (depth + 1)) [0x00, v.toUInt8] (byte v) := by
  show Yields _ (head 0x00 1 :: Write.ubyte v.toUInt8) _
  refine yields_head (by decide) (by decide) (by decide) fun start => ?_
  exact ((yields_ubyte v.toUInt8).bind_pure UInt8.toInt8).bind_pure byte

theorem toInt_ofInt {i : Int} {width : Nat} (hwidth : width ≤ 8) (h : -(byteBound width / 2 : Nat) ≤ i)
    (h' : i < (byteBound width / 2 : Nat)) : (Int64.ofInt i).toInt = i := by
  have hle : byteBound width ≤ 2 ^ 64 := byteBound_le hwidth
  exact Int64.toInt_ofInt_of_le (by omega) (by omega)

theorem yields_short (v : Int16) : Yields (decodeWithin r (depth + 1)) (writeSigned 0x02 v.toInt) (short v) := by
  have hlow : -(byteBound 2 / 2 : Nat) ≤ v.toInt := v.le_toInt
  have hhigh : v.toInt < (byteBound 2 / 2 : Nat) := v.toInt_lt
  refine yields_writeSigned (by decide) (by decide) (by decide) hlow hhigh ?_ fun _ _ _ => rfl
  rw [toInt_ofInt (by decide) hlow hhigh, Int16.ofInt_toInt]

theorem yields_int (v : Int32) : Yields (decodeWithin r (depth + 1)) (writeSigned 0x04 v.toInt) (int v) := by
  have hlow : -(byteBound 4 / 2 : Nat) ≤ v.toInt := v.le_toInt
  have hhigh : v.toInt < (byteBound 4 / 2 : Nat) := v.toInt_lt
  refine yields_writeSigned (by decide) (by decide) (by decide) hlow hhigh ?_ fun _ _ _ => rfl
  rw [toInt_ofInt (by decide) hlow hhigh, Int32.ofInt_toInt]

theorem yields_long (v : Int64) : Yields (decodeWithin r (depth + 1)) (writeSigned 0x06 v.toInt) (long v) := by
  have hlow : -(byteBound 8 / 2 : Nat) ≤ v.toInt := v.le_toInt
  have hhigh : v.toInt < (byteBound 8 / 2 : Nat) := v.toInt_lt
  refine yields_writeSigned (by decide) (by decide) (by decide) hlow hhigh ?_ fun _ _ _ => rfl
  rw [Int64.ofInt_toInt]

theorem yields_char (v : UInt16) : Yields (decodeWithin r (depth + 1)) (writeUnsigned 0x03 v.toNat) (char v) := by
  have hlt : v.toNat < byteBound 2 := v.toNat_lt
  refine yields_writeUnsigned (by decide) (by decide) (by decide) hlt ?_ fun _ _ _ => rfl
  rw [toNat_ofNat_of_lt (by decide) hlt, UInt16.ofNat_toNat]

theorem yields_float (bits : UInt32) :
    Yields (decodeWithin r (depth + 1)) (writeRight 0x10 bits.toNat 4) (float bits) := by
  have hlt : bits.toNat < byteBound 4 := bits.toNat_lt
  refine yields_writeRight (by decide) (by decide) (by decide) hlt ?_ fun _ _ _ => rfl
  rw [toNat_ofNat_of_lt (by decide) hlt, UInt32.ofNat_toNat]

theorem yields_double (bits : UInt64) :
    Yields (decodeWithin r (depth + 1)) (writeRight 0x11 bits.toNat 8) (double bits) := by
  have hlt : bits.toNat < byteBound 8 := bits.toNat_lt
  refine yields_writeRight (by decide) (by decide) (by decide) hlt ?_ fun _ _ _ => rfl
  rw [UInt64.ofNat_toNat]

theorem yields_atom {v : Value} {form : List UInt8} (htraced : v.Traced r n) (hv : v.encode n = .ok form)
    (hatom : v.IsAtom) : Yields (decodeWithin r (depth + 1)) form v := by
  cases v with
  | array | nested => cases hatom
  | byte v =>
    cases hv
    exact yields_byte depth v
  | short v =>
    cases hv
    exact yields_short depth v
  | char v =>
    cases hv
    exact yields_char depth v
  | int v =>
    cases hv
    exact yields_int depth v
  | long v =>
    cases hv
    exact yields_long depth v
  | float bits =>
    cases hv
    exact yields_float depth bits
  | double bits =>
    cases hv
    exact yields_double depth bits
  | null =>
    cases hv
    exact yields_null depth
  | boolean b =>
    cases hv
    exact yields_boolean depth b
  | proto p =>
    obtain ⟨i, hi, rfl⟩ := Result.map_eq_ok hv
    exact yields_writeIndex (by decide) (htraced hi) rfl fun _ _ _ => rfl
  | handle h =>
    obtain ⟨i, hi, rfl⟩ := Result.map_eq_ok hv
    exact yields_writeIndex (by decide) (htraced hi) rfl fun _ _ _ => rfl
  | string s =>
    obtain ⟨i, hi, rfl⟩ := Result.map_eq_ok hv
    exact yields_writeIndex (by decide) (htraced hi) rfl fun _ _ _ => rfl
  | type d =>
    obtain ⟨i, hi, rfl⟩ := Result.map_eq_ok hv
    exact yields_writeIndex (by decide) (htraced hi) rfl fun _ _ _ => rfl
  | field f =>
    obtain ⟨i, hi, rfl⟩ := Result.map_eq_ok hv
    exact yields_writeIndex (by decide) (htraced hi) rfl fun _ _ _ => rfl
  | method m =>
    obtain ⟨i, hi, rfl⟩ := Result.map_eq_ok hv
    exact yields_writeIndex (by decide) (htraced hi) rfl fun _ _ _ => rfl
  | enum f =>
    obtain ⟨i, hi, rfl⟩ := Result.map_eq_ok hv
    exact yields_writeIndex (by decide) (htraced hi) rfl fun _ _ _ => rfl

end atoms

/-! ## All values -/

mutual

/-- A value is read, with a bound on the levels of nesting, with its elements in the
order they were written in. -/
theorem yields_indexed (v : Value) (htraced : ∀ w ∈ v.parts, w.Traced r n) {form : List UInt8}
    (hv : v.encode n = .ok form) {depth : Nat} (hdepth : form.length ≤ depth) :
    Yields (decodeWithin r depth) form (v.indexed n) := by
  have hpos := List.length_pos_iff.mpr (encode_ne_nil hv)
  obtain ⟨depth, rfl⟩ := Nat.exists_eq_add_one_of_ne_zero (show depth ≠ 0 by omega)
  cases v with
  | array vs =>
    obtain ⟨body, hbody, hv⟩ := Result.bind_eq_ok hv
    cases hv
    obtain ⟨hcount, htraced⟩ := List.forall_mem_cons.mp htraced
    rw [List.length_append, List.length_cons] at hdepth
    obtain ⟨forms, rfl, hforms⟩ := yields_indexedEach vs htraced hbody (show body.length ≤ depth by omega)
    have hlen : vs.length = (indexedEach n vs).length := by rw [indexedEach_eq, List.length_map]
    show Yields _ (head 0x1c 1 :: _) (array (indexedEach n vs))
    refine yields_head (by decide) (by decide) (by decide) fun start => ?_
    rw [hlen]
    exact (yields_readArray hforms (hlen ▸ hcount)).bind_pure array
  | nested t es =>
    obtain ⟨body, hbody, hv⟩ := Result.bind_eq_ok hv
    cases hv
    obtain ⟨⟨hcount, htypes, hnames⟩, htraced⟩ := List.forall_mem_cons.mp htraced
    obtain ⟨typeIndex, rest, htype, rfl, hread⟩ := exists_readElements hbody hcount hnames
    obtain ⟨hlt, hresolved⟩ := htypes htype
    rw [List.length_cons, List.length_append] at hdepth
    show Yields _ (head 0x1d 1 :: _) (nested t (Elements.indexed n (indexedElements n es)))
    refine yields_head (by decide) (by decide) (by decide) fun start => ?_
    have hbody : Yields (readBody r (decodeWithin r depth)) (Write.uleb128 typeIndex ++ rest) _ :=
      (yields_smallUleb128 hlt).bind ((yields_ofResult hresolved).nil_bind
        ((hread _ fun e he form hform hle =>
          yields_indexedElements es htraced depth e he form hform (by omega)).bind_pure fun elements => (t, elements)))
    exact hbody.bind_pure fun p => nested p.1 p.2
  | _ => exact yields_atom depth (htraced _ (self_mem_parts _)) hv trivial

/-- Values are read one after the other. -/
theorem yields_indexedEach (vs : List Value) (htraced : ∀ w ∈ partsOfEach vs, w.Traced r n) {body : List UInt8}
    (hvs : encodeEach n vs = .ok body) {depth : Nat} (hdepth : body.length ≤ depth) :
    ∃ forms, body = forms.flatten ∧ List.Forall₂ (Yields (decodeWithin r depth)) forms (indexedEach n vs) := by
  match vs with
  | [] =>
    cases hvs
    exact ⟨[], rfl, .nil⟩
  | v :: vs =>
    obtain ⟨first, hfirst, hvs⟩ := Result.bind_eq_ok hvs
    obtain ⟨rest, hrest, hvs⟩ := Result.bind_eq_ok hvs
    cases hvs
    obtain ⟨htracedFirst, htraced⟩ := List.forall_mem_append.mp htraced
    rw [List.length_append] at hdepth
    obtain ⟨forms, rfl, hforms⟩ := yields_indexedEach vs htraced hrest (show rest.length ≤ depth by omega)
    exact ⟨first :: forms, rfl, .cons (yields_indexed v htracedFirst hfirst (by omega)) hforms⟩

/-- The values of elements are read. -/
theorem yields_indexedElements (es : Elements) (htraced : ∀ w ∈ partsOfElements es, w.Traced r n) (depth : Nat) :
    ∀ e ∈ es, ∀ body, e.2.encode n = .ok body → body.length ≤ depth →
      Yields (decodeWithin r depth) body (e.2.indexed n) := by
  match es with
  | [] => exact fun e he => nomatch he
  | e :: es =>
    obtain ⟨htracedFirst, htraced⟩ := List.forall_mem_append.mp htraced
    refine List.forall_mem_cons.mpr ⟨fun body hbody hdepth => ?_, yields_indexedElements es htraced depth⟩
    exact yields_indexed e.2 htracedFirst hbody hdepth

end

end Value

end Dalvik
