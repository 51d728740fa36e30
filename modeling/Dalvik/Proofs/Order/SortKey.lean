import Mathlib.Data.List.Basic
import Dalvik.Proofs.Text.Utf16
import Dalvik.SortKey

/-!
# Sort keys tell entries apart

Sort keys are totally ordered, and no two entries of a kind have the same sort
key: strings have different units, a prototype is given by its types, and a
method handle by its kind and its member.
-/

namespace Dalvik.SortKey

instance : Std.TransCmp SortKey.compare :=
  inferInstanceAs (Std.TransCmp (List.compareLex (List.compareLex Ord.compare)))

instance : Std.LawfulEqCmp SortKey.compare :=
  inferInstanceAs (Std.LawfulEqCmp (List.compareLex (List.compareLex Ord.compare)))

theorem compare_cons (units units' : List UInt16) (rest rest' : SortKey) :
    SortKey.compare (units :: rest) (units' :: rest') =
      (List.compareLex Ord.compare units units').then (SortKey.compare rest rest') :=
  List.compareLex_cons_cons

/-- Sort keys of strings compare their first strings and then the others. -/
theorem compare_ofStrings_cons (s t : String) (ss ts : List String) :
    SortKey.compare (ofStrings (s :: ss)) (ofStrings (t :: ts)) =
      (Utf16.compare s t).then (SortKey.compare (ofStrings ss) (ofStrings ts)) :=
  compare_cons ..

theorem ofStrings_injective : Function.Injective ofStrings :=
  List.map_injective_iff.mpr Utf16.encode_injective

theorem ofString_injective : Function.Injective ofString := fun _ _ h => by
  simpa using ofStrings_injective h

theorem ofProto_injective : Function.Injective ofProto := fun p q h => by
  cases p
  cases q
  simpa [and_comm] using ofStrings_injective h

theorem ofField_injective : Function.Injective ofField := fun f g h => by
  cases f
  cases g
  simpa using ofStrings_injective h

theorem ofMethod_injective : Function.Injective ofMethod := fun m n h => by
  obtain ⟨c, s, ps, r⟩ := m
  obtain ⟨d, t, qs, q⟩ := n
  have h : ofStrings (c :: s :: r :: ps) = ofStrings (d :: t :: q :: qs) := h
  simpa [and_comm, and_assoc] using ofStrings_injective h

theorem code_lt (k : HandleKind) : k.code < 9 := by
  cases k <;> decide

theorem code_injective {k l : HandleKind} (h : UInt16.ofNat k.code = UInt16.ofNat l.code) : k = l := by
  cases k <;> cases l <;> first | rfl | exact absurd h (by decide)

/-- Kinds compare by their numbers, of whatever width. -/
theorem compare_code (k l : HandleKind) : Ord.compare (UInt32.ofNat k.code) (UInt32.ofNat l.code) =
    List.compareLex Ord.compare [UInt16.ofNat k.code] [UInt16.ofNat l.code] := by
  cases k <;> cases l <;> rfl

/-- Members of one kind have different sort keys. -/
theorem ofMember_injective {m n : HandleMember} (hkind : m.isField = n.isField) (h : ofMember m = ofMember n) :
    m = n := by
  cases m <;> cases n <;> simp only [HandleMember.isField, reduceCtorEq] at hkind
  · rw [ofField_injective h]
  · rw [ofMethod_injective h]

theorem ofHandle_injective : Function.Injective ofHandle := fun a b h => by
  obtain ⟨k, m, hm⟩ := a
  obtain ⟨l, n, hn⟩ := b
  obtain ⟨hcode, hmember⟩ := List.cons.inj h
  obtain rfl := code_injective (List.cons.inj hcode).1
  obtain rfl := ofMember_injective (hm.symm.trans hn) hmember
  rfl

end Dalvik.SortKey
