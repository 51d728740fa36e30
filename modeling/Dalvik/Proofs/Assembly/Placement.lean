import Mathlib.Data.List.Forall2
import Dalvik.Assembly.Draft
import Dalvik.Proofs.Output

/-!
# Items one behind the other

Items are placed one behind the other, each at a multiple of an alignment
(`Draft.exists_placed`). Items that end at such multiples need no padding between them
(`Draft.place_unaligned`). A `Run` has their forms with the offsets at which they
stand; runs that follow each other make up a run.
-/

namespace Dalvik

/-- The items of a section begin at multiples of this number. -/
def ItemType.alignment : ItemType → Nat
  | typeList | annotationSet | annotationSetRefList | annotationsDirectory | code | hiddenApi | mapList => 4
  | _ => 1

theorem ItemType.alignment_pos (type : ItemType) : 0 < type.alignment := by
  cases type <;> decide

/-- Forms, each with the offset at which it stands. -/
abbrev Run := List (Nat × List UInt8)

namespace Run

/-- The forms follow each other, without overlap, from `first` to `last`. -/
def Between : (first : Nat) → Run → (last : Nat) → Prop
  | first, [], last => first ≤ last
  | first, (offset, form) :: rest, last => first ≤ offset ∧ Between (offset + form.length) rest last

namespace Between

variable {first middle last : Nat} {run run' : Run}

theorem le (h : Between first run last) : first ≤ last := by
  induction run generalizing first with
  | nil => exact h
  | cons p run ih =>
    have := ih h.2
    have := h.1
    omega

theorem mono (h : Between first run last) {first' last' : Nat} (hfirst : first' ≤ first) (hlast : last ≤ last') :
    Between first' run last' := by
  induction run generalizing first first' with
  | nil =>
    show first' ≤ last'
    have : first ≤ last := h
    omega
  | cons p run ih => exact ⟨Nat.le_trans hfirst h.1, ih h.2 (Nat.le_refl _)⟩

theorem of_sublist (h : Between first run' last) (hsublist : run.Sublist run') : Between first run last := by
  induction hsublist generalizing first with
  | slnil => exact h
  | cons p _ ih => exact ih (h.2.mono (Nat.le_trans h.1 (Nat.le_add_right _ _)) (Nat.le_refl _))
  | cons_cons p _ ih => exact ⟨h.1, ih h.2⟩

theorem of_mem {sections : List (ItemType × Run)} (h : Between first (sections.flatMap Prod.snd) last)
    {s : ItemType × Run} (hs : s ∈ sections) : Between first s.2 last :=
  h.of_sublist (List.flatMap_def ▸ List.sublist_flatten_of_mem (List.mem_map_of_mem hs))

theorem append (h : Between first run middle) (h' : Between middle run' last) : Between first (run ++ run') last := by
  induction run generalizing first with
  | nil => exact h'.mono h (Nat.le_refl _)
  | cons p run ih => exact ⟨h.1, ih h.2⟩

theorem bounds (h : Between first run last) : ∀ p ∈ run, first ≤ p.1 ∧ p.1 + p.2.length ≤ last := by
  induction run generalizing first with
  | nil => exact fun p hp => nomatch hp
  | cons q run ih =>
    refine List.forall_mem_cons.mpr ⟨⟨h.1, h.2.le⟩, fun p hp => ?_⟩
    have hq := h.1
    obtain ⟨hle, hlast⟩ := ih h.2 p hp
    exact ⟨by omega, hlast⟩

theorem pairwise (h : Between first run last) : run.Pairwise fun p q => p.1 + p.2.length ≤ q.1 := by
  induction run generalizing first with
  | nil => exact .nil
  | cons p run ih => exact .cons (fun q hq => (h.2.bounds q hq).1) (ih h.2)

/-- Forms that take up room stand at offsets that go up. -/
theorem pairwise_lt (h : Between first run last) (hne : ∀ p ∈ run, p.2 ≠ []) : run.Pairwise fun p q => p.1 < q.1 := by
  refine h.pairwise.imp_of_mem fun {p q} hp _ hle => ?_
  have := List.length_pos_iff.mpr (hne p hp)
  omega

/-- Forms that take up room are no more than the bytes between their ends. -/
theorem length_le (h : Between first run last) (hne : ∀ p ∈ run, p.2 ≠ []) : run.length + first ≤ last := by
  induction run generalizing first with
  | nil =>
    rw [List.length_nil, Nat.zero_add]
    exact h
  | cons p run ih =>
    obtain ⟨hp, hne⟩ := List.forall_mem_cons.mp hne
    have hpos := List.length_pos_iff.mpr hp
    have hrest : run.length + (p.1 + p.2.length) ≤ last := ih h.2 hne
    have hfirst : first ≤ p.1 := h.1
    rw [List.length_cons]
    omega

/-- The first offset and the number of forms that take up room lie before their end. -/
theorem length_add_head_le (h : Between first run last) (hne : ∀ p ∈ run, p.2 ≠ []) :
    run.length + (run.head?.map Prod.fst).getD 0 ≤ last := by
  cases run with
  | nil => exact Nat.zero_le _
  | cons p run =>
    have hlast : Between p.1 (p :: run) last := ⟨Nat.le_refl _, h.2⟩
    exact hlast.length_le hne

end Between

/-! ### Runs without gaps -/

/-- Forms one behind the other from `start` on, without gaps. -/
def packed (start : Nat) : List (List UInt8) → Run
  | [] => []
  | form :: rest => (start, form) :: packed (start + form.length) rest

theorem map_snd_packed (start : Nat) (forms : List (List UInt8)) : (packed start forms).map Prod.snd = forms := by
  induction forms generalizing start with
  | nil => rfl
  | cons form forms ih => rw [packed, List.map_cons, ih]

theorem packed_append (start : Nat) (forms forms' : List (List UInt8)) :
    packed start (forms ++ forms') = packed start forms ++ packed (start + forms.flatten.length) forms' := by
  induction forms generalizing start with
  | nil => rfl
  | cons form forms ih =>
    rw [List.cons_append, packed, packed, ih, List.flatten_cons, List.length_append, Nat.add_assoc, List.cons_append]

theorem between_packed (start : Nat) (forms : List (List UInt8)) :
    Between start (packed start forms) (start + forms.flatten.length) := by
  induction forms generalizing start with
  | nil => exact Nat.le_refl _
  | cons form forms ih =>
    rw [List.flatten_cons, List.length_append, ← Nat.add_assoc]
    exact ⟨Nat.le_refl _, ih _⟩

theorem holds_packed {bytes : Bytes} {start : Nat} {forms : List (List UInt8)} (h : bytes.Holds start forms.flatten) :
    ∀ p ∈ packed start forms, bytes.Holds p.1 p.2 := by
  induction forms generalizing start with
  | nil => exact fun p hp => nomatch hp
  | cons form forms ih =>
    rw [List.flatten_cons] at h
    exact List.forall_mem_cons.mpr ⟨h.left, ih h.right⟩

/-- Sections of forms one behind the other, without gaps. -/
def packedSections (start : Nat) : List (ItemType × List (List UInt8)) → List (ItemType × Run)
  | [] => []
  | (type, forms) :: rest => (type, packed start forms) :: packedSections (start + forms.flatten.length) rest

theorem map_fst_packedSections (start : Nat) (sections : List (ItemType × List (List UInt8))) :
    (packedSections start sections).map Prod.fst = sections.map Prod.fst := by
  induction sections generalizing start with
  | nil => rfl
  | cons s sections ih => rw [packedSections, List.map_cons, List.map_cons, ih]

theorem flatMap_packedSections (start : Nat) (sections : List (ItemType × List (List UInt8))) :
    (packedSections start sections).flatMap Prod.snd = packed start (sections.flatMap Prod.snd) := by
  induction sections generalizing start with
  | nil => rfl
  | cons s sections ih => rw [packedSections, List.flatMap_cons, List.flatMap_cons, ih, packed_append]

/-- The section of a kind consists of forms. -/
def Of (sections : List (ItemType × Run)) (type : ItemType) (forms : List (List UInt8)) : Prop :=
  ∃ run, (type, run) ∈ sections ∧ run.map Prod.snd = forms

theorem Of.mono {sections sections' : List (ItemType × Run)} {type : ItemType} {forms : List (List UInt8)}
    (h : Of sections type forms) (hsub : sections ⊆ sections') : Of sections' type forms := by
  obtain ⟨run, hmem, hforms⟩ := h
  exact ⟨run, hsub hmem, hforms⟩

theorem of_packedSections (start : Nat) {sections : List (ItemType × List (List UInt8))} {type : ItemType}
    {forms : List (List UInt8)} (h : (type, forms) ∈ sections) : Of (packedSections start sections) type forms := by
  induction sections generalizing start with
  | nil => cases h
  | cons s sections ih =>
    rcases List.mem_cons.mp h with rfl | h
    · exact ⟨_, List.mem_cons_self, map_snd_packed start forms⟩
    · exact (ih _ h).mono (List.subset_cons_self ..)

end Run

namespace Draft

variable {κ : Type}

/-- Items have been placed with their keys and offsets. -/
structure Placing (alignment : Nat) (items : List (κ × List UInt8)) (out out' : Output)
    (placed : List (κ × Nat × List UInt8)) : Prop where
  grows : out.Extends out'
  items_eq : placed.map (fun p => (p.1, p.2.2)) = items
  between : Run.Between out.position (placed.map Prod.snd) out'.position
  aligned : ∀ p ∈ placed, p.2.1 % alignment = 0
  /-- The first item stands where the aligned output ends. -/
  first : ∀ p ∈ placed.head?, p.2.1 = (out.align alignment).position
  holds : ∀ bytes, out'.In bytes → ∀ p ∈ placed, bytes.Holds p.2.1 p.2.2

theorem exists_placed {alignment : Nat} (halignment : 0 < alignment) (items : List (κ × List UInt8)) (out : Output)
    (offsets : Array (κ × Nat)) :
    ∃ placed, (place alignment out offsets items).2.toList = offsets.toList ++ placed.map (fun p => (p.1, p.2.1)) ∧
      Placing alignment items out (place alignment out offsets items).1 placed := by
  induction items generalizing out offsets with
  | nil =>
    refine ⟨[], by simp [place], .rfl, rfl, Nat.le_refl _, ?_, ?_, ?_⟩
    · exact fun p hp => nomatch hp
    · exact fun p hp => nomatch hp
    · exact fun bytes _ p hp => nomatch hp
  | cons item items ih =>
    obtain ⟨key, form⟩ := item
    have halign : out.Extends (out.align alignment) := .align alignment
    obtain ⟨placed, hoffsets, h⟩ := ih ((out.align alignment).append form)
      (offsets.push (key, (out.align alignment).position))
    rw [place]
    refine ⟨(key, (out.align alignment).position, form) :: placed, ?_, ?_⟩
    · rw [hoffsets, Array.toList_push, List.append_assoc]
      rfl
    · refine ⟨halign.trans (.trans (.append form) h.grows), ?_, ⟨halign.position_le, ?_⟩, ?_, ?_, ?_⟩
      · rw [List.map_cons, h.items_eq]
      · have hbetween := h.between
        rwa [Output.append_position] at hbetween
      · exact List.forall_mem_cons.mpr ⟨Output.align_position_mod halignment, h.aligned⟩
      · rintro p ⟨⟩
        rfl
      · intro bytes hbytes
        have hform := Output.In.holds_append (.of_extends h.grows hbytes)
        exact List.forall_mem_cons.mpr ⟨hform, h.holds bytes hbytes⟩

/-- Items that end at multiples of an alignment need no padding between them. -/
theorem place_unaligned {alignment : Nat} {items : List (κ × List UInt8)}
    (hitems : ∀ item ∈ items, item.2.length % alignment = 0) {out : Output} (hout : out.position % alignment = 0)
    (offsets : Array (κ × Nat)) : place 1 out offsets items = place alignment out offsets items ∧
      (place alignment out offsets items).1.position % alignment = 0 := by
  induction items generalizing out offsets with
  | nil => exact ⟨rfl, hout⟩
  | cons item items ih =>
    obtain ⟨key, form⟩ := item
    obtain ⟨hform, hitems⟩ := List.forall_mem_cons.mp hitems
    have happend : (out.append form).position % alignment = 0 := by
      rw [Output.append_position, Nat.add_mod, hout, hform, Nat.add_zero, Nat.zero_mod]
    rw [place, place, Output.align_eq_self (Nat.mod_one _), Output.align_eq_self hout]
    exact ih hitems happend _

end Draft

end Dalvik
