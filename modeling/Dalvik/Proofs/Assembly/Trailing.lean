import Dalvik.Proofs.Assembly.Opening
import Dalvik.Proofs.Leading

/-!
# Drafts that stay behind

When the items of two drafts have the same keys and those of the second are no longer,
the second draft stays behind the first, and so do the offsets of its items
(`Draft.Trails`).
-/

namespace Dalvik

open Result (Leads)

/-- Padding leaves what is behind behind. -/
theorem Output.align_position_mono {out out' : Output} (h : out'.position ≤ out.position) {alignment : Nat}
    (halignment : alignment = 1 ∨ alignment = 4) : (out'.align alignment).position ≤ (out.align alignment).position := by
  rw [align, align, append_position, append_position, List.length_replicate, List.length_replicate, padding, padding]
  rcases halignment with rfl | rfl <;> omega

namespace Draft

variable {κ : Type}

/-! ## Items -/

/-- The second item has the key of the first and is no longer. -/
def NoLonger (item item' : κ × List UInt8) : Prop :=
  item.1 = item'.1 ∧ Shortens item.2 item'.2

/-- Fewer items that are no longer end no later. -/
theorem place_position_le_of_sublist {alignment : Nat} (halignment : alignment = 1 ∨ alignment = 4)
    {items items' : List (κ × List UInt8)} (hsub : items'.Sublist items) {out out' : Output}
    (hle : out'.position ≤ out.position) (offsets offsets' : Array (κ × Nat)) :
    (place alignment out' offsets' items').1.position ≤ (place alignment out offsets items).1.position := by
  induction hsub generalizing out out' offsets offsets' with
  | slnil => exact hle
  | cons item _ ih =>
    refine ih (Nat.le_trans hle ?_) _ _
    exact ((Output.Extends.align alignment).trans (.append item.2)).position_le
  | cons_cons item _ ih =>
    refine ih ?_ _ _
    rw [Output.append_position, Output.append_position]
    exact Nat.add_le_add_right (Output.align_position_mono hle halignment) _

/-- The second offset is one of the same key that is no larger. -/
structure Under (entry entry' : κ × Nat) : Prop where
  key : entry.1 = entry'.1
  pos : 0 < entry'.2
  le : entry'.2 ≤ entry.2

/-- Items that are no longer stand at offsets that are no larger. -/
theorem exists_placed_under {alignment : Nat} (halignment : alignment = 1 ∨ alignment = 4)
    {items items' : List (κ × List UInt8)} (h : List.Forall₂ NoLonger items items') {out out' : Output}
    (hpos : 0 < out'.position) (hle : out'.position ≤ out.position) (offsets offsets' : Array (κ × Nat)) :
    (place alignment out' offsets' items').1.position ≤ (place alignment out offsets items).1.position ∧
    ∃ placed placed', (place alignment out offsets items).2.toList = offsets.toList ++ placed ∧
      (place alignment out' offsets' items').2.toList = offsets'.toList ++ placed' ∧
      List.Forall₂ Under placed placed' ∧
      ∀ entry ∈ placed, entry.2 ≤ (place alignment out offsets items).1.position := by
  induction h generalizing out out' offsets offsets' with
  | nil => exact ⟨hle, [], [], (List.append_nil _).symm, (List.append_nil _).symm, .nil, fun _ hentry => nomatch hentry⟩
  | @cons item item' items items' hitem _ ih =>
    have halign := Output.align_position_mono hle halignment
    have hpos' : 0 < (out'.align alignment).position :=
      Nat.lt_of_lt_of_le hpos (Output.Extends.align alignment).position_le
    have hnext : ((out'.align alignment).append item'.2).position ≤ ((out.align alignment).append item.2).position := by
      rw [Output.append_position, Output.append_position]
      exact Nat.add_le_add halign hitem.2
    have hposNext : 0 < ((out'.align alignment).append item'.2).position :=
      Nat.lt_of_lt_of_le hpos' (Output.Extends.append item'.2).position_le
    obtain ⟨hend, placed, placed', hplaced, hplaced', hunder, hbound⟩ :=
      ih hposNext hnext (offsets.push (item.1, (out.align alignment).position))
        (offsets'.push (item'.1, (out'.align alignment).position))
    rw [Array.toList_push, List.append_assoc] at hplaced hplaced'
    obtain ⟨_, -, hgrows⟩ := exists_placed (by omega : 0 < alignment) items ((out.align alignment).append item.2)
      (offsets.push (item.1, (out.align alignment).position))
    have hfirst := Nat.le_trans (Output.Extends.append item.2).position_le hgrows.grows.position_le
    exact ⟨hend, _ :: placed, _ :: placed', hplaced, hplaced', .cons ⟨hitem.1, hpos', halign⟩ hunder,
      List.forall_mem_cons.mpr ⟨hfirst, hbound⟩⟩

/-! ## Tables -/

variable [BEq κ] [Hashable κ]

/-- The second table has the keys of the first, with offsets that are no larger. -/
def Below (table table' : Std.HashMap κ Nat) : Prop :=
  ∀ key : κ, (table[key]? = none ∧ table'[key]? = none) ∨
    ∃ offset offset', table[key]? = some offset ∧ table'[key]? = some offset' ∧ 0 < offset' ∧ offset' ≤ offset ∧
      offset < extentBound

namespace Below

variable [LawfulBEq κ] [LawfulHashable κ]

theorem insert {table table' : Std.HashMap κ Nat} (h : Below table table') {entry entry' : κ × Nat}
    (hentry : Under entry entry') (hlt : entry.2 < extentBound) :
    Below (table.insert entry.1 entry.2) (table'.insert entry'.1 entry'.2) := fun key => by
  rw [Std.HashMap.getElem?_insert, Std.HashMap.getElem?_insert, ← hentry.key]
  split
  · exact .inr ⟨_, _, rfl, rfl, hentry.pos, hentry.le, hlt⟩
  · exact h key

theorem insertMany {table table' : Std.HashMap κ Nat} (h : Below table table') {placed placed' : List (κ × Nat)}
    (hplaced : List.Forall₂ Under placed placed') (hlt : ∀ entry ∈ placed, entry.2 < extentBound) :
    Below (table.insertMany placed) (table'.insertMany placed') := by
  induction hplaced generalizing table table' with
  | nil =>
    rw [Std.HashMap.insertMany_nil, Std.HashMap.insertMany_nil]
    exact h
  | cons hentry _ ih =>
    rw [List.forall_mem_cons] at hlt
    rw [Std.HashMap.insertMany_cons, Std.HashMap.insertMany_cons]
    exact ih (h.insert hentry hlt.1) hlt.2

theorem ofList {placed placed' : List (κ × Nat)} (hplaced : List.Forall₂ Under placed placed')
    (hlt : ∀ entry ∈ placed, entry.2 < extentBound) : Below (.ofList placed) (.ofList placed') := by
  rw [Std.HashMap.ofList_eq_insertMany_empty, Std.HashMap.ofList_eq_insertMany_empty]
  refine insertMany (fun key => .inl ⟨?_, ?_⟩) hplaced hlt <;> exact Std.HashMap.getElem?_empty

end Below

section tables

variable {table table' : Std.HashMap κ Nat} (h : Below table table') (key : κ)

include h

theorem Below.offsetIn_le : offsetIn table' key ≤ offsetIn table key := by
  rw [offsetIn, offsetIn]
  rcases h key with ⟨hnone, hnone'⟩ | ⟨offset, offset', hsome, hsome', -, hle, hlt⟩
  · rw [hnone, hnone']
    exact UInt32.le_refl _
  · have hbound : extentBound < UInt32.size := by decide
    rw [hsome, hsome']
    dsimp only
    rw [UInt32.le_iff_toNat_le, UInt32.toNat_ofNat_of_lt' (by omega), UInt32.toNat_ofNat_of_lt' (by omega)]
    exact hle

theorem Below.offsetIn_eq_zero_iff : offsetIn table key = 0 ↔ offsetIn table' key = 0 := by
  rw [offsetIn, offsetIn]
  rcases h key with ⟨hnone, hnone'⟩ | ⟨offset, offset', hsome, hsome', hpos, hle, hlt⟩
  · rw [hnone, hnone']
  · have hbound : extentBound < UInt32.size := by decide
    rw [hsome, hsome']
    dsimp only
    rw [← UInt32.toNat_inj, ← UInt32.toNat_inj, UInt32.toNat_ofNat_of_lt' (by omega),
      UInt32.toNat_ofNat_of_lt' (by omega), UInt32.toNat_zero]
    omega

theorem Below.contains_eq [LawfulBEq κ] [LawfulHashable κ] : table.contains key = table'.contains key := by
  rw [Std.HashMap.contains_eq_isSome_getElem?, Std.HashMap.contains_eq_isSome_getElem?]
  rcases h key with ⟨hnone, hnone'⟩ | ⟨offset, offset', hsome, hsome', -⟩
  · rw [hnone, hnone']
  · rw [hsome, hsome']
    rfl

end tables

/-! ## Drafts -/

/-- The second draft ends no later than the first and has no more sections. -/
structure Behind (d d' : Draft) : Prop where
  pos : 0 < d'.out.position
  le : d'.out.position ≤ d.out.position
  sections : d'.sections.size ≤ d.sections.size

/-- A draft to which a section has been written. -/
def afterSection (type : ItemType) (alignment : Nat) (items : List (κ × List UInt8)) (d : Draft) : Draft :=
  { note { d with out := {} } type items.length (d.out.align alignment).position with
    out := (place alignment (d.out.align alignment) #[] items).1 }

section afterSection

variable {type : ItemType} {alignment : Nat} {d d' : Draft}

omit [BEq κ] [Hashable κ] in
theorem position_le_afterSection (halignment : 0 < alignment) (items : List (κ × List UInt8)) (d : Draft) :
    d.out.position ≤ (afterSection type alignment items d).out.position := by
  obtain ⟨_, -, hgrows⟩ := exists_placed halignment items (d.out.align alignment) #[]
  exact ((Output.Extends.align alignment).trans hgrows.grows).position_le

omit [BEq κ] [Hashable κ] in
/-- A section of no more items that ends no later leaves a draft that is behind. -/
theorem Behind.afterSection (h : Behind d d') (halignment : 0 < alignment) {items items' : List (κ × List UInt8)}
    (hcount : items'.length ≤ items.length)
    (hle : (Draft.afterSection type alignment items' d').out.position ≤
      (Draft.afterSection type alignment items d).out.position) :
    Behind (Draft.afterSection type alignment items d) (Draft.afterSection type alignment items' d') where
  pos := Nat.lt_of_lt_of_le h.pos (position_le_afterSection halignment items' d')
  le := hle
  sections := by
    have hsections := h.sections
    show (note _ type items'.length _).sections.size ≤ (note _ type items.length _).sections.size
    unfold note
    by_cases hnone : items'.length = 0
    · rw [if_pos hnone]
      split
      · exact hsections
      · rw [Array.size_push]
        exact Nat.le_succ_of_le hsections
    · rw [if_neg hnone, if_neg (by omega), Array.size_push, Array.size_push]
      exact Nat.succ_le_succ hsections

end afterSection

/-- The first writing does not go back. Where it ends below `extentBound` and some
proposition holds, the second succeeds on every draft behind, and the draft stays behind.
The proposition gathers what is known of the tables of the sections before. -/
def Trails {α β : Type} (P : Prop) (w : Write α) (w' : Write β) : Prop :=
  ∀ d a e, w d = .ok (a, e) → d.out.position ≤ e.out.position ∧
    (e.out.position < extentBound → P → ∀ d', Behind d d' → ∃ a' e', w' d' = .ok (a', e') ∧ Behind e e')

namespace Trails

variable {α β : Type} {P : Prop} {type : ItemType} {alignment : Nat}

theorem pure (a : α) (b : β) : Trails P (Pure.pure a) (Pure.pure b) := fun d _ _ h => by
  cases h
  exact ⟨Nat.le_refl _, fun _ _ d' hbehind => ⟨b, d', rfl, hbehind⟩⟩

theorem bind_align (halignment : alignment = 1 ∨ alignment = 4) {next : Write α} {next' : Write β}
    (hnext : Trails P next next') : Trails P (do align alignment; next) (do align alignment; next') := fun d a e h => by
  obtain ⟨hgrows, hbehind⟩ := hnext { d with out := d.out.align alignment } a e h
  refine ⟨Nat.le_trans (Output.Extends.align alignment).position_le hgrows, fun hlt hP d' hd => ?_⟩
  exact hbehind hlt hP { d' with out := d'.out.align alignment }
    ⟨Nat.lt_of_lt_of_le hd.pos (Output.Extends.align alignment).position_le,
      Output.align_position_mono hd.le halignment, hd.sections⟩

/-- Writing a section of fewer items, and going on. -/
theorem bind_fewer (halignment : alignment = 1 ∨ alignment = 4) {items items' : List (κ × List UInt8)}
    (hsub : items'.Sublist items) {next : Std.HashMap κ Nat → Write α} {next' : Std.HashMap κ Nat → Write β}
    (hnext : ∀ table table', Trails P (next table) (next' table')) :
    Trails P (do let table ← writeSection type alignment items; next table)
      (do let table ← writeSection type alignment items'; next' table) := fun d a e h => by
  have hpos : 0 < alignment := by omega
  refine ⟨Nat.le_trans (position_le_afterSection hpos items d) (hnext _ ∅ (afterSection type alignment items d) a e h).1,
    fun hlt hP d' hd => ?_⟩
  have hle := place_position_le_of_sublist halignment hsub (Output.align_position_mono hd.le halignment) #[] #[]
  exact (hnext _ _ (afterSection type alignment items d) a e h).2 hlt hP (afterSection type alignment items' d')
    (hd.afterSection hpos hsub.length_le hle)

variable [LawfulBEq κ] [LawfulHashable κ]

/-- Writing a section whose items are no longer, and going on. -/
theorem bind_section (halignment : alignment = 1 ∨ alignment = 4) {items items' : List (κ × List UInt8)}
    (hitems : P → List.Forall₂ NoLonger items items') {next : Std.HashMap κ Nat → Write α}
    {next' : Std.HashMap κ Nat → Write β}
    (hnext : ∀ table table', Trails (P ∧ Below table table') (next table) (next' table')) :
    Trails P (do let table ← writeSection type alignment items; next table)
      (do let table ← writeSection type alignment items'; next' table) := fun d a e h => by
  have hpos : 0 < alignment := by omega
  have hgrows := (hnext _ ∅ (afterSection type alignment items d) a e h).1
  refine ⟨Nat.le_trans (position_le_afterSection hpos items d) hgrows, fun hlt hP d' hd => ?_⟩
  have hposition : 0 < (d'.out.align alignment).position :=
    Nat.lt_of_lt_of_le hd.pos (Output.Extends.align alignment).position_le
  obtain ⟨hle, placed, placed', hplaced, hplaced', hunder, hbound⟩ := exists_placed_under halignment (hitems hP)
    hposition (Output.align_position_mono hd.le halignment) #[] #[]
  have hbelow : Below (.ofList (place alignment (d.out.align alignment) #[] items).2.toList)
      (.ofList (place alignment (d'.out.align alignment) #[] items').2.toList) := by
    rw [hplaced, hplaced']
    exact .ofList hunder fun entry hentry =>
      Nat.lt_of_le_of_lt (Nat.le_trans (hbound entry hentry) hgrows) hlt
  exact (hnext _ _ (afterSection type alignment items d) a e h).2 hlt ⟨hP, hbelow⟩ (afterSection type alignment items' d')
    (hd.afterSection hpos (hitems hP).length_eq.symm.le hle)

/-- Making items that are no longer, writing a section of them, and going on. -/
theorem bind_made (halignment : alignment = 1 ∨ alignment = 4) {made made' : Result (List (κ × List UInt8))}
    (hmade : P → Leads (List.Forall₂ NoLonger) made made') {next : Std.HashMap κ Nat → Write α}
    {next' : Std.HashMap κ Nat → Write β}
    (hnext : ∀ table table', Trails (P ∧ Below table table') (next table) (next' table')) :
    Trails P (do let items ← liftM made; let table ← writeSection type alignment items; next table)
      (do let items ← liftM made'; let table ← writeSection type alignment items; next' table) := by
  cases made with
  | error cause => exact fun _ _ _ h => nomatch h
  | ok items =>
    intro d a e h
    have hsame : P → List.Forall₂ NoLonger items items := fun _ => List.forall₂_same.mpr fun _ _ => ⟨rfl, .rfl⟩
    refine ⟨(bind_section halignment hsame hnext d a e h).1, fun hlt hP => ?_⟩
    obtain ⟨items', rfl, hitems⟩ := hmade hP items rfl
    exact (bind_section halignment (fun _ => hitems) hnext d a e h).2 hlt hP

end Trails

end Draft

end Dalvik
