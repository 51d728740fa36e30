import Dalvik.Proofs.Value.Indexed

/-!
# Values are read as they were written

Writing sorts the elements of every annotation inside a value by the indices of
their names. `yields_decode`: with a resolver that undoes the numbering, and
with names whose indices are in the order of the names, a value is read with all
its elements in the order of their names.
-/

namespace Dalvik

/-! ## Values with their elements in order -/

namespace Value

mutual

/-- A value with the elements of all annotations in it in the order of their
names. -/
def arranged : Value → Value
  | array values => array (arrangedEach values)
  | nested t elements => nested t (Elements.sorted (arrangedElements elements))
  | v => v
termination_by structural v => v

/-- Values with their elements in order. -/
def arrangedEach : List Value → List Value
  | [] => []
  | v :: vs => v.arranged :: arrangedEach vs
termination_by structural vs => vs

/-- Elements with the elements of their values in order. -/
def arrangedElements : List (String × Value) → List (String × Value)
  | [] => []
  | (name, v) :: vs => (name, v.arranged) :: arrangedElements vs
termination_by structural vs => vs

end

theorem arrangedEach_eq (vs : List Value) : arrangedEach vs = vs.map arranged := by
  induction vs with
  | nil => rfl
  | cons v vs ih => rw [arrangedEach, ih, List.map_cons]

theorem arrangedElements_eq (es : Elements) : arrangedElements es = es.map fun e => (e.1, e.2.arranged) := by
  induction es with
  | nil => rfl
  | cons e es ih => rw [arrangedElements, ih, List.map_cons]

end Value

/-- What the numbering gives an index, the resolver finds behind that index. -/
structure ValueResolver.Undoes (r : ValueResolver) (n : ValueNumbering) : Prop where
  string : ∀ {s i}, n.string s = .ok i → i.toNat < extentBound ∧ r.string i = .ok s
  type : ∀ {d i}, n.type d = .ok i → i.toNat < extentBound ∧ r.type i = .ok d
  field : ∀ {f i}, n.field f = .ok i → r.field i = .ok f
  method : ∀ {m i}, n.method m = .ok i → r.method i = .ok m
  proto : ∀ {p i}, n.proto p = .ok i → r.proto i = .ok p
  handle : ∀ {h i}, n.handle h = .ok i → r.handle i = .ok h

/-- The indices of strings are in the order of their units. -/
def ValueNumbering.Ordered (n : ValueNumbering) : Prop :=
  ∀ {s t i j}, n.string s = .ok i → n.string t = .ok j → (i ≤ j ↔ (Utf16.compare s t).isLE = true)

namespace Value

open Read

variable {r : ValueResolver} {n : ValueNumbering}

/-! ## What the resolver undoes -/

/-- A value takes at least one byte. -/
theorem length_le_length_encodeEach {vs : List Value} {body : List UInt8} (h : encodeEach n vs = .ok body) :
    vs.length ≤ body.length := by
  induction vs generalizing body with
  | nil => exact Nat.zero_le _
  | cons v vs ih =>
    obtain ⟨first, hfirst, h⟩ := Result.bind_eq_ok h
    obtain ⟨rest, hrest, h⟩ := Result.bind_eq_ok h
    cases h
    have hpos := List.length_pos_iff.mpr (encode_ne_nil hfirst)
    have := ih hrest
    rw [List.length_cons, List.length_append]
    omega

/-- An element takes at least one byte. -/
theorem length_le_length_encodeBody {type : String} {elements : Elements} {form : List UInt8}
    (h : encodeBody n type elements = .ok form) : elements.length ≤ form.length := by
  obtain ⟨typeIndex, parts, -, -, hparts, rfl⟩ := exists_parts h
  have hne : ∀ part ∈ parts, part ≠ [] := by
    intro part hpart
    obtain ⟨e, -, body, hbody, rfl⟩ := exists_mem_left hparts hpart
    exact List.append_ne_nil_of_right_ne_nil _ (encode_ne_nil hbody)
  have hle := length_le_length_flatten hne
  rw [← hparts.length_eq, Elements.indexed, List.length_mergeSort] at hle
  rw [List.length_append]
  omega

/-- A resolver that undoes the numbering does so for each value. -/
theorem traced_of_undoes (hundoes : r.Undoes n) {v : Value} {form : List UInt8} (hv : v.encode n = .ok form)
    (hlength : form.length < extentBound) : v.Traced r n := by
  cases v with
  | array vs =>
    obtain ⟨body, hbody, hv⟩ := Result.bind_eq_ok hv
    cases hv
    have hle := length_le_length_encodeEach hbody
    rw [List.length_append] at hlength
    show vs.length < extentBound
    omega
  | nested t es =>
    obtain ⟨body, hbody, hv⟩ := Result.bind_eq_ok hv
    cases hv
    have hle := length_le_length_encodeBody hbody
    rw [List.length_cons] at hlength
    exact ⟨by omega, hundoes.type, fun _ _ => hundoes.string⟩
  | proto => exact hundoes.proto
  | handle => exact hundoes.handle
  | string => exact fun hi => (hundoes.string hi).2
  | type => exact fun hi => (hundoes.type hi).2
  | field | enum => exact hundoes.field
  | method => exact hundoes.method
  | _ => trivial

/-- A resolver that undoes the numbering does so for all values in a form. -/
theorem traced_of_forms (hundoes : r.Undoes n) {vs : List Value} {form : List UInt8}
    (hforms : ∀ v ∈ vs, ∃ part, v.encode n = .ok part ∧ part <:+: form) (hlength : form.length < extentBound) :
    ∀ v ∈ vs, v.Traced r n := by
  intro v hv
  obtain ⟨part, hpart, hinfix⟩ := hforms v hv
  exact traced_of_undoes hundoes hpart (Nat.lt_of_le_of_lt hinfix.length_le hlength)

/-! ## Indices in the order of names -/

theorem indexed_eq_sorted (hordered : n.Ordered) {elements : Elements}
    (h : ∀ e ∈ elements, n.string e.1 = .ok (n.place e.1)) :
    Elements.indexed n (arrangedElements elements) = Elements.sorted (arrangedElements elements) := by
  rw [arrangedElements_eq]
  have hkeys : ∀ a ∈ elements.map fun e => (e.1, e.2.arranged), ∀ b ∈ elements.map fun e => (e.1, e.2.arranged),
      decide (n.place a.1 ≤ n.place b.1) = (Utf16.compare a.1 b.1).isLE := by
    simp only [List.forall_mem_map]
    intro a ha b hb
    rw [Bool.eq_iff_iff, decide_eq_true_iff]
    exact hordered (h a ha) (h b hb)
  simpa [Elements.indexed, Elements.sorted] using List.map_mergeSort (f := id) hkeys

mutual

/-- If indices are in the order of names, so are the elements inside a value. -/
theorem indexed_eq_arranged (hordered : n.Ordered) (v : Value) {form : List UInt8} (hv : v.encode n = .ok form) :
    v.indexed n = v.arranged := by
  cases v with
  | array vs =>
    obtain ⟨body, hbody, -⟩ := Result.bind_eq_ok hv
    rw [indexed, arranged, indexedEach_eq_arranged hordered vs hbody]
  | nested t es =>
    obtain ⟨body, hbody, -⟩ := Result.bind_eq_ok hv
    obtain ⟨-, -, hindex, -, -, -⟩ := exists_parts hbody
    have heq := indexedElements_eq_arranged hordered es fun e he =>
      (exists_form_of_mem_encodeBody hbody e he).imp fun _ h => h.1
    rw [indexed, arranged, heq, indexed_eq_sorted hordered hindex]
  | _ => rfl

theorem indexedEach_eq_arranged (hordered : n.Ordered) (vs : List Value) {body : List UInt8}
    (hvs : encodeEach n vs = .ok body) : indexedEach n vs = arrangedEach vs := by
  match vs with
  | [] => rfl
  | v :: vs =>
    obtain ⟨first, hfirst, hvs⟩ := Result.bind_eq_ok hvs
    obtain ⟨rest, hrest, -⟩ := Result.bind_eq_ok hvs
    rw [indexedEach, arrangedEach, indexed_eq_arranged hordered v hfirst,
      indexedEach_eq_arranged hordered vs hrest]

theorem indexedElements_eq_arranged (hordered : n.Ordered) (es : Elements)
    (hes : ∀ e ∈ es, ∃ body, e.2.encode n = .ok body) : indexedElements n es = arrangedElements es := by
  match es with
  | [] => rfl
  | (name, v) :: es =>
    obtain ⟨⟨body, hbody⟩, hes⟩ := List.forall_mem_cons.mp hes
    rw [indexedElements, arrangedElements, indexed_eq_arranged hordered v hbody,
      indexedElements_eq_arranged hordered es hes]

end

/-! ## All values -/

variable (hundoes : r.Undoes n) (hordered : n.Ordered)

include hundoes hordered

/-- A value is read as it was written, with its elements in order. -/
theorem yields_decode {v : Value} {form : List UInt8} (h : v.encode n = .ok form) (hlength : form.length < extentBound) :
    Yields (decode r) form v.arranged := by
  have htraced := traced_of_forms hundoes (exists_form_of_mem_parts v h) hlength
  rw [← indexed_eq_arranged hordered v h]
  exact .remaining fun _ _ => yields_indexed v htraced h (by omega)

/-- A list of values is read as it was written, with its elements in order. -/
theorem yields_decodeArray {vs : List Value} {form : List UInt8} (h : encodeArray n vs = .ok form)
    (hlength : form.length < extentBound) : Yields (decodeArray r) form (arrangedEach vs) := by
  obtain ⟨body, hbody, h⟩ := Result.bind_eq_ok h
  cases h
  have hle := length_le_length_encodeEach hbody
  rw [List.length_append] at hlength
  have htraced := traced_of_forms hundoes (exists_form_of_mem_partsOfEach vs hbody) (by omega)
  refine .remaining fun count hcount => ?_
  rw [List.length_append] at hcount
  have hdepth : body.length ≤ count + 1 := by omega
  obtain ⟨forms, rfl, hforms⟩ := yields_indexedEach vs htraced hbody hdepth
  rw [indexedEach_eq_arranged hordered vs hbody] at hforms
  have hlen : vs.length = (arrangedEach vs).length := by rw [arrangedEach_eq, List.length_map]
  rw [hlen]
  exact yields_readArray hforms (by omega)

/-- The elements of an annotation are read as they were written, in the order of
their names. -/
theorem exists_decodeElements {type : String} {elements : Elements} {form : List UInt8}
    (h : encodeBody n type elements = .ok form) (hlength : form.length < extentBound) :
    ∃ typeIndex rest, n.type type = .ok typeIndex ∧ form = Write.uleb128 typeIndex ++ rest ∧
      Yields (decodeElements r) rest (Elements.sorted (arrangedElements elements)) := by
  have hle := length_le_length_encodeBody h
  have hforms := exists_form_of_mem_encodeBody h
  obtain ⟨-, -, hindex, -, -, -⟩ := exists_parts h
  obtain ⟨typeIndex, rest, htype, rfl, hread⟩ := exists_readElements h (by omega) fun _ _ => hundoes.string
  have htraced := traced_of_forms hundoes (exists_form_of_mem_partsOfElements elements hforms) hlength
  have heq := indexedElements_eq_arranged hordered elements fun e he => (hforms e he).imp fun _ h => h.1
  rw [heq, indexed_eq_sorted hordered hindex] at hread
  refine ⟨typeIndex, rest, htype, rfl, .remaining fun count hcount => hread _ fun e he body hbody hle => ?_⟩
  exact yields_indexedElements elements htraced (count + 1) e he body hbody (by omega)

end Value

end Dalvik
