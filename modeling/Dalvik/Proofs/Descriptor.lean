import Dalvik.Signature

/-!
# Method descriptors are read by their grammar

`Descriptor.IsParameter` is the grammar of parameter types. No parameter type begins
another one (`Descriptor.splitFirst?_append`), so a text lists parameter types in one way
at most (`Descriptor.parameters?_eq_some_iff`). A method descriptor is read exactly if a
prototype spells it, and then it is read as the only one that does
(`Prototype.ofDescriptor_spelled`).
-/

namespace Dalvik

namespace Descriptor

/-- The descriptor of a type that a parameter may have. -/
inductive IsParameter : List Char → Prop
  | basic {c : Char} (h : c ∈ basicTypes) : IsParameter [c]
  | reference {name : List Char} (h : ';' ∉ name) : IsParameter ('L' :: (name ++ [';']))
  | array {element : List Char} (h : IsParameter element) : IsParameter ('[' :: element)

/-! ## Text up to a character -/

section scan

variable {text rest : List Char} {c : Char}

theorem forall_ne_of_not_mem (h : c ∉ text) : ∀ a ∈ text, decide (a ≠ c) = true :=
  fun _ ha => decide_eq_true fun hac => h (hac ▸ ha)

/-- What stands in front of the first `c`. -/
theorem takeWhile_ne_append (h : c ∉ text) (rest : List Char) : (text ++ c :: rest).takeWhile (· ≠ c) = text := by
  rw [List.takeWhile_append_of_pos (forall_ne_of_not_mem h), List.takeWhile_cons, if_neg (by simp), List.append_nil]

/-- What begins with the first `c`. -/
theorem dropWhile_ne_append (h : c ∉ text) (rest : List Char) : (text ++ c :: rest).dropWhile (· ≠ c) = c :: rest := by
  rw [List.dropWhile_append_of_pos (forall_ne_of_not_mem h), List.dropWhile_cons, if_neg (by simp)]

theorem not_mem_takeWhile_ne (text : List Char) (c : Char) : c ∉ text.takeWhile (· ≠ c) := by
  intro h
  have hall : (text.takeWhile (· ≠ c)).all (· ≠ c) = true := List.all_takeWhile
  exact of_decide_eq_true (List.all_eq_true.mp hall c h) rfl

theorem eq_append_of_dropWhile_ne (h : text.dropWhile (· ≠ c) = c :: rest) :
    text = text.takeWhile (· ≠ c) ++ c :: rest := by
  rw [← h, List.takeWhile_append_dropWhile]

end scan

/-! ## Parameter types -/

/-- A parameter type is split off whatever follows it. -/
theorem splitFirst?_append {first : List Char} (h : IsParameter first) (rest : List Char) :
    splitFirst? (first ++ rest) = some (first, rest) := by
  induction h with
  | @basic c hc =>
    simp only [basicTypes, List.mem_cons, List.not_mem_nil, or_false] at hc
    rcases hc with rfl | rfl | rfl | rfl | rfl | rfl | rfl | rfl <;> rfl
  | @reference name hname =>
    rw [List.cons_append, List.append_assoc, splitFirst?]
    dsimp only [List.cons_append, List.nil_append]
    rw [takeWhile_ne_append hname, dropWhile_ne_append hname]
    rfl
  | array _ ih =>
    rw [List.cons_append, splitFirst?, ih]
    rfl

/-- What is split off is a parameter type. -/
theorem isParameter_of_splitFirst? {text first rest : List Char} (h : splitFirst? text = some (first, rest)) :
    IsParameter first := by
  induction text generalizing first with
  | nil => cases h
  | cons c text ih =>
    rw [splitFirst?.eq_def] at h
    split at h
    · cases h
    · rename_i heq
      cases heq
      obtain ⟨⟨element, rest⟩, helement, heq⟩ := Option.map_eq_some_iff.mp h
      cases heq
      exact .array (ih helement)
    · rename_i heq
      cases heq
      split at h
      · rename_i hdrop
        cases h
        exact .reference (not_mem_takeWhile_ne _ _)
      · cases h
    · rename_i heq
      cases heq
      split at h
      · cases h
        exact .basic ‹_›
      · cases h

theorem isParameter_iff {text : List Char} : IsParameter text ↔ splitFirst? text = some (text, []) := by
  constructor
  · intro h
    have hsplit := splitFirst?_append h []
    rwa [List.append_nil] at hsplit
  · exact isParameter_of_splitFirst?

instance (text : List Char) : Decidable (IsParameter text) :=
  decidable_of_iff _ isParameter_iff.symm

theorem parameters?_nil : parameters? [] = some [] := by
  rw [parameters?]
  rfl

theorem parameters?_of_none {text : List Char} (hne : text ≠ []) (h : splitFirst? text = none) :
    parameters? text = none := by
  rw [parameters?, if_neg (mt List.isEmpty_iff.mp hne)]
  split
  · rfl
  · rename_i hsome
    rw [h] at hsome
    cases hsome

theorem parameters?_of_some {text first rest : List Char} (h : splitFirst? text = some (first, rest)) :
    parameters? text = (parameters? rest).map (String.ofList first :: ·) := by
  have hne : text ≠ [] := by
    rintro rfl
    cases h
  rw [parameters?, if_neg (mt List.isEmpty_iff.mp hne)]
  split
  · rename_i hnone
    rw [h] at hnone
    cases hnone
  · rename_i hsome
    rw [h] at hsome
    cases hsome
    rfl

/-- A text lists the parameter types that it consists of. -/
theorem parameters?_eq_some_iff {text : List Char} {parameters : List String} :
    parameters? text = some parameters ↔
      (∀ d ∈ parameters, IsParameter d.toList) ∧ parameters.flatMap String.toList = text := by
  constructor
  · intro h
    -- Along the text, a parameter type at a time.
    induction text using parameters?.induct generalizing parameters with
    | case1 text hempty =>
      cases List.isEmpty_iff.mp hempty
      rw [parameters?_nil] at h
      cases h
      exact ⟨List.forall_mem_nil _, rfl⟩
    | case2 text hempty hsplit =>
      rw [parameters?_of_none (mt List.isEmpty_iff.mpr hempty) hsplit] at h
      cases h
    | case3 text hempty first rest hsplit hlength ih =>
      rw [parameters?_of_some hsplit] at h
      obtain ⟨more, hmore, rfl⟩ := Option.map_eq_some_iff.mp h
      obtain ⟨hparameters, htext⟩ := ih hmore
      rw [List.forall_mem_cons, List.flatMap_cons, String.toList_ofList, htext]
      exact ⟨⟨isParameter_of_splitFirst? hsplit, hparameters⟩, append_of_splitFirst? hsplit⟩
  · rintro ⟨hparameters, rfl⟩
    induction parameters with
    | nil => exact parameters?_nil
    | cons first parameters ih =>
      rw [List.forall_mem_cons] at hparameters
      rw [List.flatMap_cons, parameters?_of_some (splitFirst?_append hparameters.1 _), ih hparameters.2,
        Option.map_some, String.ofList_toList]

end Descriptor

namespace Prototype

open Descriptor

/-- The text is the descriptor of the prototype, and no parenthesis closes it early. -/
structure Spells (p : Prototype) (text : String) : Prop where
  text : text.toList = '(' :: (p.parameters.flatMap String.toList ++ ')' :: p.returnType.toList)
  parameters : ∀ d ∈ p.parameters, IsParameter d.toList
  closed : ')' ∉ p.parameters.flatMap String.toList
  returnType : p.returnType ≠ ""

theorem toList_descriptor (p : Prototype) :
    p.descriptor.toList = '(' :: (p.parameters.flatMap String.toList ++ ')' :: p.returnType.toList) := by
  simp only [descriptor, String.toList_append, String.toList_join, List.append_assoc]
  rfl

theorem Spells.descriptor_eq {p : Prototype} {text : String} (h : p.Spells text) : p.descriptor = text := by
  rw [← String.toList_inj, toList_descriptor, h.text]

theorem spells_descriptor {p : Prototype} (hparameters : ∀ d ∈ p.parameters, IsParameter d.toList ∧ ')' ∉ d.toList)
    (hreturn : p.returnType ≠ "") : p.Spells p.descriptor where
  text := toList_descriptor p
  parameters d hd := (hparameters d hd).1
  closed h := by
    obtain ⟨d, hd, hmem⟩ := List.mem_flatMap.mp h
    exact (hparameters d hd).2 hmem
  returnType := hreturn

/-- A prototype is read from the texts that spell it. -/
theorem ofDescriptor_eq_ok_iff {text : String} {p : Prototype} : ofDescriptor text = .ok p ↔ p.Spells text := by
  constructor
  · intro h
    rw [ofDescriptor] at h
    split at h
    · rename_i rest htext
      split at h
      · rename_i returnType hdrop
        split at h
        · rename_i parameters hparameters
          split at h
          · cases h
          · rename_i hempty
            cases h
            obtain ⟨hall, hflat⟩ := parameters?_eq_some_iff.mp hparameters
            refine ⟨?_, hall, ?_, ?_⟩
            · rw [htext, hflat, String.toList_ofList, ← eq_append_of_dropWhile_ne hdrop]
            · rw [hflat]
              exact not_mem_takeWhile_ne rest ')'
            · rw [Ne, String.ofList_eq_empty_iff]
              exact mt List.isEmpty_iff.mpr hempty
        · cases h
      · cases h
    · cases h
  · intro h
    have hparameters := parameters?_eq_some_iff.mpr ⟨h.parameters, rfl⟩
    have hempty : ¬p.returnType.toList.isEmpty = true := by
      rw [List.isEmpty_iff, String.toList_eq_nil_iff]
      exact h.returnType
    rw [ofDescriptor, h.text]
    simp only [dropWhile_ne_append h.closed, takeWhile_ne_append h.closed, hparameters, if_neg hempty,
      String.ofList_toList]

/-- A method descriptor is read exactly if a prototype spells it, and as the only one that
does, which writes it again. A prototype whose parameters are parameter types is read from
its descriptor. -/
theorem ofDescriptor_spelled :
    (∀ text, (∃ p, ofDescriptor text = .ok p) ↔ ∃ p : Prototype, p.Spells text) ∧
    (∀ text p, ofDescriptor text = .ok p →
      p.Spells text ∧ (∀ q : Prototype, q.Spells text → q = p) ∧ p.descriptor = text) ∧
    ∀ p : Prototype, (∀ d ∈ p.parameters, IsParameter d.toList ∧ ')' ∉ d.toList) → p.returnType ≠ "" →
      ofDescriptor p.descriptor = .ok p := by
  refine ⟨fun text => exists_congr fun p => ofDescriptor_eq_ok_iff, fun text p h => ?_, fun p hparameters hreturn => ?_⟩
  · have hp := ofDescriptor_eq_ok_iff.mp h
    refine ⟨hp, fun q hq => ?_, hp.descriptor_eq⟩
    have hread := ofDescriptor_eq_ok_iff.mpr hq
    rw [h] at hread
    cases hread
    rfl
  · exact ofDescriptor_eq_ok_iff.mpr (spells_descriptor hparameters hreturn)

/-- Parameters of every form. -/
def mixed : Prototype :=
  ⟨["I", "[J", "Ljava/lang/String;", "D"], "V"⟩

theorem ofDescriptor_spelled_mixed :
    (∃ p : Prototype, p.Spells "(I[JLjava/lang/String;D)V") ∧ mixed.descriptor = "(I[JLjava/lang/String;D)V" ∧
      ofDescriptor mixed.descriptor = .ok mixed := by
  have hread := ofDescriptor_spelled.2.2 mixed (by decide) (by decide)
  have htext : mixed.descriptor = "(I[JLjava/lang/String;D)V" := by decide
  refine ⟨?_, htext, hread⟩
  rw [htext] at hread
  exact (ofDescriptor_spelled.1 _).mp ⟨mixed, hread⟩

end Prototype

end Dalvik
