import Dalvik.Error

/-!
# Descriptors

A type is named by its descriptor: a letter for a basic type, `L` and a name
up to a semicolon for a class, and a bracket in front of the descriptor of the
elements for an array. A method descriptor lists the parameters between
parentheses and then names the return type.
-/

namespace Dalvik.Descriptor

/-- The letters of the basic types that a parameter may have. -/
def basicTypes : List Char := ['Z', 'B', 'S', 'C', 'I', 'J', 'F', 'D']

/-- Whether values of a type take two registers. -/
def isWide (descriptor : String) : Bool :=
  descriptor == "J" || descriptor == "D"

/-- The letter of a type in a short form, where all references are alike. -/
def shortyLetter (descriptor : String) : Char :=
  match descriptor.toList with
  | [] => 'V'
  | '[' :: _ => 'L'
  | c :: _ => c

/-- Splits off the descriptor of one parameter. -/
def splitFirst? : List Char → Option (List Char × List Char)
  | [] => none
  | '[' :: rest => (splitFirst? rest).map fun (first, rest) => ('[' :: first, rest)
  | 'L' :: rest =>
    match rest.dropWhile (· ≠ ';') with
    | ';' :: after => some ('L' :: rest.takeWhile (· ≠ ';') ++ [';'], after)
    | _ => none
  | c :: rest => if c ∈ basicTypes then some ([c], rest) else none

theorem append_of_splitFirst? {text first rest : List Char} (h : splitFirst? text = some (first, rest)) :
    first ++ rest = text := by
  induction text generalizing first with
  | nil => simp [splitFirst?] at h
  | cons c text ih =>
    rw [splitFirst?.eq_def] at h
    split at h
    · simp at h
    · rename_i heq
      cases heq
      obtain ⟨⟨f, r⟩, hf, he⟩ := Option.map_eq_some_iff.1 h
      cases he
      simp [ih hf]
    · rename_i heq
      cases heq
      split at h
      · rename_i after hd
        have := List.takeWhile_append_dropWhile (p := fun c => c ≠ ';') (l := text)
        rw [hd] at this
        cases h
        simpa using this
      · simp at h
    · rename_i heq
      cases heq
      split at h <;> simp at h
      obtain ⟨rfl, rfl⟩ := h
      rfl

theorem length_splitFirst? {text first rest : List Char} (h : splitFirst? text = some (first, rest)) :
    rest.length < text.length := by
  have happend := append_of_splitFirst? h
  have hne : first ≠ [] := by
    rintro rfl
    rw [splitFirst?.eq_def] at h
    split at h
    · simp at h
    · obtain ⟨_, _, he⟩ := Option.map_eq_some_iff.1 h
      cases he
    · split at h <;> cases h
    · split at h <;> cases h
  have := List.length_pos_iff.2 hne
  simp only [← happend, List.length_append]
  omega

/-- The parameter types that a text lists without separators. -/
def parameters? (text : List Char) : Option (List String) :=
  if text.isEmpty then some []
  else
    match h : splitFirst? text with
    | none => none
    | some (first, rest) =>
      have := length_splitFirst? h
      (parameters? rest).map (String.ofList first :: ·)
termination_by text.length

end Dalvik.Descriptor
