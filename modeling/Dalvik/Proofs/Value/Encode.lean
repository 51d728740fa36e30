import Dalvik.Proofs.Outcome
import Dalvik.Value.Encode

/-!
# Written values and what is inside them

The elements of an annotation are written in the order of the indices of their
names. `encodeBody_eq` says so for names that all have indices; without them
nothing is written.

Arrays and annotations hold values, which are written as parts of them
(`exists_form_of_mem_parts`).
-/

namespace Dalvik

/-- The index of a string, or zero if it has none. -/
def ValueNumbering.place (n : ValueNumbering) (s : String) : UInt32 :=
  (n.string s).toOption.getD 0

/-- The elements by the indices of their names. Elements of one name keep their
order. -/
def Elements.indexed (n : ValueNumbering) (elements : Elements) : Elements :=
  elements.mergeSort fun a b => n.place a.1 ≤ n.place b.1

namespace Value

open Result (Fails)

theorem elementForms_eq (n : ValueNumbering) (elements : Elements) :
    elementForms n elements = elements.map fun e => (e.1, e.2.encode n) := by
  induction elements with
  | nil => rfl
  | cons e elements ih => rw [elementForms, ih, List.map_cons]

/-- The body of an annotation whose names all have indices. -/
theorem encodeBody_eq {n : ValueNumbering} {index : String → UInt32} {elements : Elements}
    (h : ∀ e ∈ elements, n.string e.1 = .ok (index e.1)) (type : String) :
    encodeBody n type elements = do
      let typeIndex ← n.type type
      let parts ← (elements.mergeSort fun a b => index a.1 ≤ index b.1).mapM fun e => do
        return Write.uleb128 (index e.1) ++ (← e.2.encode n)
      return Write.uleb128 typeIndex ++ Write.uleb128 (UInt32.ofNat elements.length) ++ parts.flatten := by
  have hsorted : (elements.map fun e => (index e.1, e.2.encode n)).mergeSort (fun a b => a.1 ≤ b.1) =
      (elements.mergeSort fun a b => index a.1 ≤ index b.1).map fun e => (index e.1, e.2.encode n) :=
    (List.map_mergeSort (f := fun e : String × Value => (index e.1, e.2.encode n)) fun _ _ _ _ => rfl).symm
  have hlookup : ∀ e ∈ elements, (n.string e.1 >>= fun i => pure (i, e.2.encode n)) =
      (.ok (index e.1, e.2.encode n) : Result (UInt32 × Result (List UInt8))) := fun e he => by
    rw [h e he]
    rfl
  simp only [encodeBody, writeBody, elementForms_eq, List.mapM_map, Function.comp_def]
  rw [Result.mapM_ok hlookup]
  simp only [Result.ok_bind, hsorted, List.mapM_map, List.length_map]
  rfl

theorem encodeBody_fails {n : ValueNumbering} {elements : Elements} {e : String × Value} (he : e ∈ elements)
    (h : (n.string e.1).Fails) (type : String) : (encodeBody n type elements).Fails := by
  refine Result.fails_bind fun _ => Fails.bind ?_ _
  rw [elementForms_eq, List.mapM_map]
  exact Result.mapM_fails he (h.bind _)

/-- The body of an annotation in parts: the type, the number of elements, and
the elements in the order of the indices of their names. -/
theorem exists_parts {n : ValueNumbering} {type : String} {elements : Elements} {form : List UInt8}
    (h : encodeBody n type elements = .ok form) :
    ∃ (typeIndex : UInt32) (parts : List (List UInt8)),
      (∀ e ∈ elements, n.string e.1 = .ok (n.place e.1)) ∧ n.type type = .ok typeIndex ∧
      List.Forall₂ (fun e part => ∃ body, e.2.encode n = .ok body ∧ part = Write.uleb128 (n.place e.1) ++ body)
        (elements.indexed n) parts ∧
      form = Write.uleb128 typeIndex ++ Write.uleb128 (UInt32.ofNat elements.length) ++ parts.flatten := by
  have hindex : ∀ e ∈ elements, n.string e.1 = .ok (n.place e.1) := by
    intro e he
    cases hs : n.string e.1 with
    | ok i => simp [ValueNumbering.place, hs, Except.toOption]
    | error cause =>
      obtain ⟨cause, hfails⟩ := encodeBody_fails he ⟨cause, hs⟩ type
      rw [hfails] at h
      cases h
  rw [encodeBody_eq hindex] at h
  obtain ⟨typeIndex, htype, h⟩ := Result.bind_eq_ok h
  obtain ⟨parts, hparts, h⟩ := Result.bind_eq_ok h
  cases h
  refine ⟨typeIndex, parts, hindex, htype, ?_, rfl⟩
  refine (Result.forall₂_of_mapM hparts).imp fun e part hpart => ?_
  obtain ⟨body, hbody, hpart⟩ := Result.bind_eq_ok hpart
  cases hpart
  exact ⟨body, hbody, rfl⟩

/-! ## Values inside values -/

mutual

/-- A value and all values inside it. -/
def parts : Value → List Value
  | array values => array values :: partsOfEach values
  | nested t elements => nested t elements :: partsOfElements elements
  | v => [v]
termination_by structural v => v

/-- Values and all values inside them. -/
def partsOfEach : List Value → List Value
  | [] => []
  | v :: vs => v.parts ++ partsOfEach vs
termination_by structural vs => vs

/-- The values of elements and all values inside them. -/
def partsOfElements : List (String × Value) → List Value
  | [] => []
  | (_, v) :: es => v.parts ++ partsOfElements es
termination_by structural es => es

end

theorem self_mem_parts (v : Value) : v ∈ v.parts := by
  cases v <;> exact List.mem_cons_self

variable {n : ValueNumbering}

/-- The body of an annotation holds the forms of the values of its elements. -/
theorem exists_form_of_mem_encodeBody {type : String} {elements : Elements} {form : List UInt8}
    (h : encodeBody n type elements = .ok form) :
    ∀ e ∈ elements, ∃ body, e.2.encode n = .ok body ∧ body <:+: form := by
  intro e he
  obtain ⟨typeIndex, parts, -, -, hparts, rfl⟩ := exists_parts h
  obtain ⟨part, hmem, body, hbody, rfl⟩ := exists_mem_right hparts (List.mem_mergeSort.mpr he)
  have hbodyOf : body <:+: Write.uleb128 (n.place e.1) ++ body := (List.suffix_append _ body).isInfix
  have hpartOf := List.infix_of_mem_flatten hmem
  exact ⟨body, hbody, hbodyOf.trans (hpartOf.trans (List.suffix_append _ parts.flatten).isInfix)⟩

mutual

/-- The form of a value holds the forms of all values inside it. -/
theorem exists_form_of_mem_parts (v : Value) {form : List UInt8} (hv : v.encode n = .ok form) :
    ∀ w ∈ v.parts, ∃ part, w.encode n = .ok part ∧ part <:+: form := by
  intro w hw
  cases v with
  | array vs =>
    rcases List.mem_cons.mp hw with rfl | hw
    · exact ⟨form, hv, List.infix_rfl⟩
    · obtain ⟨body, hbody, hv⟩ := Result.bind_eq_ok hv
      cases hv
      obtain ⟨part, hpart, hinfix⟩ := exists_form_of_mem_partsOfEach vs hbody w hw
      exact ⟨part, hpart, hinfix.trans (List.suffix_append _ body).isInfix⟩
  | nested t es =>
    rcases List.mem_cons.mp hw with rfl | hw
    · exact ⟨form, hv, List.infix_rfl⟩
    · obtain ⟨body, hbody, hv⟩ := Result.bind_eq_ok hv
      cases hv
      obtain ⟨part, hpart, hinfix⟩ := exists_form_of_mem_partsOfElements es (exists_form_of_mem_encodeBody hbody) w hw
      exact ⟨part, hpart, hinfix.trans (List.suffix_cons _ body).isInfix⟩
  | _ =>
    rw [List.mem_singleton.mp hw]
    exact ⟨form, hv, List.infix_rfl⟩

theorem exists_form_of_mem_partsOfEach (vs : List Value) {form : List UInt8} (hvs : encodeEach n vs = .ok form) :
    ∀ w ∈ partsOfEach vs, ∃ part, w.encode n = .ok part ∧ part <:+: form := by
  match vs with
  | [] => exact fun w hw => nomatch hw
  | v :: vs =>
    obtain ⟨first, hfirst, hvs⟩ := Result.bind_eq_ok hvs
    obtain ⟨rest, hrest, hvs⟩ := Result.bind_eq_ok hvs
    cases hvs
    intro w hw
    rcases List.mem_append.mp hw with hw | hw
    · obtain ⟨part, hpart, hinfix⟩ := exists_form_of_mem_parts v hfirst w hw
      exact ⟨part, hpart, hinfix.trans (List.prefix_append first rest).isInfix⟩
    · obtain ⟨part, hpart, hinfix⟩ := exists_form_of_mem_partsOfEach vs hrest w hw
      exact ⟨part, hpart, hinfix.trans (List.suffix_append first rest).isInfix⟩

theorem exists_form_of_mem_partsOfElements (es : Elements) {form : List UInt8}
    (hes : ∀ e ∈ es, ∃ body, e.2.encode n = .ok body ∧ body <:+: form) :
    ∀ w ∈ partsOfElements es, ∃ part, w.encode n = .ok part ∧ part <:+: form := by
  match es with
  | [] => exact fun w hw => nomatch hw
  | e :: es =>
    obtain ⟨⟨body, hbody, hform⟩, hes⟩ := List.forall_mem_cons.mp hes
    intro w hw
    rcases List.mem_append.mp hw with hw | hw
    · obtain ⟨part, hpart, hinfix⟩ := exists_form_of_mem_parts e.2 hbody w hw
      exact ⟨part, hpart, hinfix.trans hform⟩
    · exact exists_form_of_mem_partsOfElements es hes w hw

end

end Value

end Dalvik
