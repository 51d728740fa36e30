import Dalvik.Proofs.Leb128
import Dalvik.Proofs.Outcome
import Dalvik.Proofs.Value.Sizes
import Dalvik.Value.Encode

/-!
# Outcomes that lead to others

An outcome leads to another one (`Result.Leads`) when the other succeeds wherever it
does, with a value that goes with its own. This is kept by whatever outcomes are put
together by. Forms are compared by their lengths (`Shortens`): a smaller number has no
longer a form.
-/

namespace Dalvik

namespace Result

variable {α β γ δ : Type}

/-- If the first outcome is a value, the second is one that goes with it. -/
def Leads (R : α → β → Prop) (r : Result α) (s : Result β) : Prop :=
  ∀ a, r = .ok a → ∃ b, s = .ok b ∧ R a b

namespace Leads

variable {R : α → β → Prop} {S : γ → δ → Prop} {r : Result α} {s : Result β}

theorem ok {a : α} {b : β} (h : R a b) : Leads R (.ok a) (.ok b) := fun _ ha => by
  cases ha
  exact ⟨b, rfl, h⟩

protected theorem rfl {r : Result α} : Leads Eq r r := fun a ha => ⟨a, ha, rfl⟩

theorem bind (h : Leads R r s) {f : α → Result γ} {g : β → Result δ} (hfg : ∀ a b, R a b → Leads S (f a) (g b)) :
    Leads S (r >>= f) (s >>= g) := fun c hc => by
  obtain ⟨a, ha, hc⟩ := bind_eq_ok hc
  obtain ⟨b, rfl, hab⟩ := h a ha
  exact hfg a b hab c hc

theorem map (h : Leads R r s) {f : α → γ} {g : β → δ} (hfg : ∀ a b, R a b → S (f a) (g b)) :
    Leads S (r.map f) (s.map g) := fun c hc => by
  obtain ⟨a, ha, rfl⟩ := map_eq_ok hc
  obtain ⟨b, rfl, hab⟩ := h a ha
  exact ⟨g b, rfl, hfg a b hab⟩

theorem within (h : Leads R r s) (context context' : Context) : Leads R (r.within context) (s.within context') :=
  fun a ha => by
    obtain ⟨b, rfl, hab⟩ := h a (within_eq_ok ha)
    exact ⟨b, rfl, hab⟩

/-- What is done for members that go together leads to what goes together. -/
theorem mapM {l : List γ} {l' : List δ} {P : γ → δ → Prop} (h : List.Forall₂ P l l') {f : γ → Result α}
    {g : δ → Result β} (hfg : ∀ c ∈ l, ∀ d ∈ l', P c d → Leads R (f c) (g d)) :
    Leads (List.Forall₂ R) (l.mapM f) (l'.mapM g) := by
  induction h with
  | nil => exact ok .nil
  | @cons c d l l' hcd _ ih =>
    rw [List.mapM_cons, List.mapM_cons]
    refine (hfg c List.mem_cons_self d List.mem_cons_self hcd).bind fun a b hab => ?_
    refine (ih fun c hc d hd => hfg c (List.mem_cons_of_mem _ hc) d (List.mem_cons_of_mem _ hd)).bind fun as bs habs => ?_
    exact ok (.cons hab habs)

theorem mapM_same {l : List γ} {f : γ → Result α} {g : γ → Result β} (hfg : ∀ c ∈ l, Leads R (f c) (g c)) :
    Leads (List.Forall₂ R) (l.mapM f) (l.mapM g) :=
  mapM (List.forall₂_same.mpr fun _ _ => rfl) fun c hc _ _ heq => heq ▸ hfg c hc

end Leads

end Result

/-! ## Forms that are no longer -/

/-- The second form takes up no more room than the first. -/
def Shortens (form form' : List UInt8) : Prop :=
  form'.length ≤ form.length

namespace Shortens

variable {form form' rest rest' : List UInt8}

theorem rfl : Shortens form form := Nat.le_refl _

theorem append (h : Shortens form form') (hrest : Shortens rest rest') : Shortens (form ++ rest) (form' ++ rest') := by
  unfold Shortens
  rw [List.length_append, List.length_append]
  exact Nat.add_le_add h hrest

theorem cons (h : Shortens form form') (b c : UInt8) : Shortens (b :: form) (c :: form') :=
  Nat.succ_le_succ h

theorem flatten {forms forms' : List (List UInt8)} (h : List.Forall₂ Shortens forms forms') :
    Shortens forms.flatten forms'.flatten := by
  induction h with
  | nil => exact rfl
  | cons hform _ ih => exact hform.append ih

end Shortens

/-! ## Smaller numbers -/

theorem Leb128.length_encodeNat_mono {m n : Nat} (h : m ≤ n) : (encodeNat m).length ≤ (encodeNat n).length := by
  induction n using encodeNat.induct generalizing m with
  | case1 n hn =>
    rw [encodeNat, if_pos (Nat.lt_of_le_of_lt h hn), encodeNat, if_pos hn]
    exact Nat.le_refl 1
  | case2 n hn ih =>
    have hgroups : encodeNat n = UInt8.ofNat (n % 0x80 + 0x80) :: encodeNat (n / 0x80) := by
      rw [encodeNat, if_neg hn]
    rw [hgroups]
    by_cases hm : m < 0x80
    · rw [encodeNat, if_pos hm]
      exact Nat.succ_le_succ (Nat.zero_le _)
    · rw [encodeNat, if_neg hm]
      exact Nat.succ_le_succ (ih (Nat.div_le_div_right h))

theorem Shortens.uleb128 {i j : UInt32} (h : j ≤ i) : Shortens (Write.uleb128 i) (Write.uleb128 j) :=
  Leb128.length_encodeNat_mono (UInt32.le_iff_toNat_le.mp h)

/-- The successor of a number below `extentBound` does not overflow. -/
theorem Shortens.uleb128p1 {i j : UInt32} (h : j ≤ i) (hlt : i.toNat < extentBound) :
    Shortens (Write.uleb128p1 i.toInt32) (Write.uleb128p1 j.toInt32) := by
  have hsuccessor (k : UInt32) : (k.toInt32 + 1).toUInt32 = k + 1 := by
    rw [Int32.toUInt32_add, UInt32.toUInt32_toInt32]
    rfl
  have hle := UInt32.le_iff_toNat_le.mp h
  unfold extentBound at hlt
  refine Leb128.length_encodeNat_mono ?_
  rw [hsuccessor, hsuccessor, UInt32.toNat_add, UInt32.toNat_add]
  simp only [UInt32.reduceToNat]
  omega

namespace Value

theorem unsignedSize_mono {m n width : Nat} (h : m ≤ n) (hpos : 0 < width) (hle : width ≤ 8)
    (hn : n < byteBound width) : unsignedSize m ≤ unsignedSize n := by
  obtain ⟨hsize, hwidth, hlt⟩ := unsignedSize_spec hpos hle hn
  exact (unsignedSize_spec hsize (Nat.le_trans hwidth hle) (Nat.lt_of_le_of_lt h hlt)).2.1

theorem shortens_writeUnsigned (tag : UInt8) {i j : UInt32} (h : j ≤ i) :
    Shortens (writeUnsigned tag i.toNat) (writeUnsigned tag j.toNat) := by
  have hsize := unsignedSize_mono (UInt32.le_iff_toNat_le.mp h) (by decide) (by decide : 4 ≤ 8) i.toNat_lt
  unfold Shortens writeUnsigned
  rw [List.length_cons, List.length_cons, LittleEndian.length_encode, LittleEndian.length_encode]
  exact Nat.succ_le_succ hsize

end Value

end Dalvik
