import Dalvik.Image.Class
import Dalvik.Proofs.Assembly.Opening

/-!
# The hidden API data lead to the flags of each class

The hidden API data have a place for each class and then the flags of the classes
that are restricted. `Blueprint.Opens.hiddenStart_eq`: a class finds its flags
there if it is restricted, and nothing if it is not.
-/

namespace Dalvik

/-- Of forms that stand one after the other, each stands behind those before it. -/
theorem Bytes.Holds.of_flatten {bytes : Bytes} {start : Nat} {forms : List (List UInt8)}
    (h : bytes.Holds start forms.flatten) {i : Nat} {form : List UInt8} (hform : forms[i]? = some form) :
    bytes.Holds (start + (forms.take i).flatten.length) form := by
  induction forms generalizing start i with
  | nil => cases hform
  | cons first forms ih =>
    rw [List.flatten_cons] at h
    cases i with
    | zero =>
      cases hform
      exact h.left
    | succ i =>
      rw [List.take_succ_cons, List.flatten_cons, List.length_append, ← Nat.add_assoc]
      exact ih h.right hform

namespace Members

/-- The flags of a class begin behind those of the classes before it. -/
theorem getElem?_flagOffsets (start : Nat) {forms : List (List UInt8)} {i : Nat} {form : List UInt8}
    (hform : forms[i]? = some form) : (flagOffsets start forms)[i]? =
      some (if form.isEmpty then 0 else start + (forms.take i).flatten.length) := by
  induction forms generalizing start i with
  | nil => cases hform
  | cons first forms ih =>
    cases i with
    | zero =>
      cases hform
      rfl
    | succ i =>
      rw [flagOffsets, List.getElem?_cons_succ, ih _ hform, List.take_succ_cons, List.flatten_cons, List.length_append,
        Nat.add_assoc]

theorem length_flagOffsets (start : Nat) (forms : List (List UInt8)) :
    (flagOffsets start forms).length = forms.length := by
  induction forms generalizing start with
  | nil => rfl
  | cons first forms ih => rw [flagOffsets, List.length_cons, ih, List.length_cons]

/-- A class has flags exactly if it is restricted. -/
theorem isEmpty_writeFlags (c : ClassDef) : (writeFlags c).isEmpty = !c.isRestricted := by
  unfold writeFlags
  split
  · rename_i hrestricted
    rw [hrestricted]
    obtain ⟨r, hr, -⟩ := List.any_eq_true.mp hrestricted
    obtain ⟨first, rest, hcons⟩ := List.exists_cons_of_ne_nil (List.ne_nil_of_mem hr)
    rw [hcons, List.flatMap_cons]
    simp [Write.uleb128, Leb128.encodeUnsigned_ne_nil]
  · rename_i hfree
    rw [Bool.not_eq_true] at hfree
    rw [hfree]
    rfl

/-- The place and the flags of a class in the hidden API data. -/
theorem holds_writeHiddenApi {bytes : Bytes} (hsize : bytes.size < extentBound) {offset : Nat}
    {classes : List ClassDef} (h : bytes.Holds offset (writeHiddenApi classes)) {i : Nat} {c : ClassDef}
    (hc : classes[i]? = some c) : ∃ place : UInt32, bytes.Holds (offset + 4 + 4 * i) (Write.uint place) ∧
      place.toNat < extentBound ∧ (place = 0 ↔ c.isRestricted = false) ∧
      (c.isRestricted = true → bytes.Holds (offset + place.toNat) (writeFlags c)) := by
  obtain ⟨flags, hflags⟩ : ∃ flags, classes.map writeFlags = flags := ⟨_, rfl⟩
  have hform : flags[i]? = some (writeFlags c) := by rw [← hflags, List.getElem?_map, hc, Option.map_some]
  have hlength : flags.length = classes.length := hflags ▸ List.length_map _
  obtain ⟨place, hplace⟩ : ∃ place, (if (writeFlags c).isEmpty then 0
      else 4 + 4 * classes.length + (flags.take i).flatten.length) = place := ⟨_, rfl⟩
  rw [writeHiddenApi] at h
  rw [hflags] at h
  have hplaces := h.left.right
  have hrest := h.right
  have hentry : ∀ place ∈ flagOffsets (4 + 4 * classes.length) flags,
      (Write.uint (UInt32.ofNat place)).length = 4 := fun _ _ => Write.length_uint _
  rw [List.length_append, Write.length_uint, length_flatMap_of_forall hentry, length_flagOffsets, hlength] at hrest
  rw [Write.length_uint] at hplaces
  have hat := hplaces.of_flatMap hentry (hplace ▸ getElem?_flagOffsets (4 + 4 * classes.length) hform)
  have hown := hrest.of_flatten hform
  have hle := hown.le_size
  have hbound : place < extentBound := by
    rw [← hplace]
    split
    · exact Nat.two_pow_pos 31
    · omega
  have htoNat : (UInt32.ofNat place).toNat = place := UInt32.toNat_ofNat_of_lt' (Nat.lt_trans hbound (by decide))
  refine ⟨UInt32.ofNat place, by rwa [Nat.mul_comm i] at hat, by omega, ?_, fun hrestricted => ?_⟩
  · rw [← UInt32.toNat_inj, htoNat, ← hplace, isEmpty_writeFlags]
    cases c.isRestricted <;> simp
  · rw [htoNat, ← hplace, isEmpty_writeFlags, hrestricted]
    have hstart : offset + (4 + classes.length * 4) + (flags.take i).flatten.length =
        offset + (4 + 4 * classes.length + (flags.take i).flatten.length) := by omega
    rwa [hstart] at hown

end Members

namespace Blueprint.Opens

variable {b : Blueprint} {t : DataTables} {image : Image}

/-- A class that is restricted finds its flags, and one that is not finds nothing. -/
theorem hiddenStart_eq (h : b.Opens t image) {s : StoredClass} (himage : s.image = image) {c : ClassDef}
    (hc : b.classes[s.index.toNat]? = some c) : (c.isRestricted = false → s.hiddenStart = .ok none) ∧
      (c.isRestricted = true → ∃ start, s.hiddenStart = .ok (some start) ∧
        image.bytes.Holds start (Members.writeFlags c)) := by
  subst himage
  obtain ⟨offset, hhidden, hholds⟩ := h.hiddenApi
  cases hany : b.classes.any ClassDef.isRestricted with
  | false =>
    have hfree : c.isRestricted = false := by
      simpa using List.any_eq_false.mp hany c (List.mem_of_getElem? hc)
    have hnone : s.image.hiddenApi = none := by rw [hhidden, hiddenApiItems, hany]; rfl
    refine ⟨fun _ => ?_, fun hrestricted => absurd (hfree.symm.trans hrestricted) Bool.false_ne_true⟩
    rw [StoredClass.hiddenStart, hnone]
  | true =>
    have hsome : s.image.hiddenApi = some offset := by rw [hhidden, hiddenApiItems, hany]; rfl
    have hheld : s.image.bytes.Holds offset (Members.writeHiddenApi b.classes) := by
      refine hholds ((), _) ?_
      rw [hiddenApiItems, hany]
      rfl
    obtain ⟨place, hplace, hlt, hzero, hflags⟩ := Members.holds_writeHiddenApi h.size_lt hheld hc
    have hread : s.image.readAt Read.smallUint (offset + 4 + 4 * s.index.toNat) = .ok place :=
      (Read.yields_smallUint hlt).at? hplace
    rw [StoredClass.hiddenStart, hsome]
    dsimp only
    rw [hread, Result.ok_bind]
    refine ⟨fun hfree => by rw [if_pos (hzero.mpr hfree)]; rfl, fun hrestricted => ⟨_, ?_, hflags hrestricted⟩⟩
    rw [if_neg fun heq => Bool.false_ne_true ((hzero.mp heq).symm.trans hrestricted)]
    rfl

end Blueprint.Opens

end Dalvik
