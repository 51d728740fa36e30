import Dalvik.Proofs.Numbers
import Dalvik.Proofs.Text.Mutf8

/-!
# String data is read as it was written

`Read.yields_stringData`: the step for string data reads the written form of
any string that is short enough for its size to be a size. A file may also hold
units that no string has: `Write.unitData` is the form of any units, and
`Read.stringData_of_units` says what text they are read as.
-/

namespace Dalvik

theorem Bytes.Holds.getElem {bytes : Bytes} {offset : Nat} {b : UInt8} {form : List UInt8}
    (h : bytes.Holds offset (b :: form)) (hlt : offset < bytes.size) : bytes[offset] = b := by
  obtain ⟨before, after, heq, rfl⟩ := h
  rw [← Array.getElem_toList hlt]
  simp [heq]

namespace Write

/-- The bytes of string data with the given units. -/
def unitData (units : List UInt16) : List UInt8 :=
  uleb128 (UInt32.ofNat units.length) ++ units.flatMap Mutf8.encodeUnit ++ [0]

theorem stringData_eq (s : String) : stringData s = unitData (Utf16.encode s) := by
  rw [stringData, unitData, Utf16.length_eq, Mutf8.encode_eq]

end Write

namespace Read

/-- The first zero byte from an offset on is the one behind a form without
zero bytes. -/
theorem zeroFrom?_eq {bytes : Bytes} {form : List UInt8} (hzero : 0 ∉ form) {offset : Nat}
    (h : bytes.Holds offset (form ++ [0])) : zeroFrom? bytes offset = some (offset + form.length) := by
  induction form generalizing offset with
  | nil =>
    have hle := h.le_size
    rw [List.nil_append, List.length_singleton] at hle
    rw [zeroFrom?, dif_pos (by omega), if_pos (h.getElem (by omega))]
    rfl
  | cons b form ih =>
    have hle := h.le_size
    rw [List.cons_append, List.length_cons] at hle
    obtain ⟨hb, hform⟩ := List.ne_and_not_mem_of_not_mem_cons hzero
    have hlt : offset < bytes.size := by omega
    have hbyte : bytes[offset] = b := Bytes.Holds.getElem h hlt
    rw [zeroFrom?, dif_pos hlt, if_neg (by rw [hbyte]; exact hb.symm)]
    have hrest : bytes.Holds (offset + 1) (form ++ [0]) :=
      Bytes.Holds.right (show bytes.Holds offset ([b] ++ (form ++ [0])) from h)
    rw [ih hform hrest, List.length_cons, Nat.add_assoc, Nat.add_comm 1]

/-- String data with any units. There are as many units in the text as in the form, so the size that was
written is the size that is expected, whether or not some unit was replaced. -/
theorem yields_unitData {units : List UInt16} (h : units.length < extentBound) :
    Yields stringData (Write.unitData units) (String.ofList (Utf16.decodeLossy units)) := by
  intro bytes offset hbytes
  have hlength : (UInt32.ofNat units.length).toNat = units.length :=
    UInt32.toNat_ofNat_of_lt' (Nat.lt_trans h (by decide))
  have htext : Utf16.length (String.ofList (Utf16.decodeLossy units)) = units.length := by
    rw [Utf16.length_eq, Utf16.encode_decodeLossy, Utf16.length_mended]
  rw [Write.unitData, List.append_assoc] at hbytes
  have hread := yields_smallUleb128 (hlength.symm ▸ h) _ _ hbytes.left
  have hlast := zeroFrom?_eq (Mutf8.zero_notMem_flatMap units) hbytes.right
  simp only [stringData, on_bind, on_tell, hread, on_read, hlast, hbytes.right.left.extract_eq, Mutf8.decode?_flatMap,
    hlength, htext, ne_eq, not_true_eq_false, if_false, on_set, on_pure]
  simp only [Write.unitData, List.length_append, List.length_singleton, Nat.add_assoc]

/-- String data. -/
theorem yields_stringData {s : String} (h : Utf16.length s < extentBound) :
    Yields stringData (Write.stringData s) s := by
  rw [Utf16.length_eq] at h
  have hread := yields_unitData h
  rwa [Utf16.decodeLossy_encode, ← Write.stringData_eq] at hread

/-- String data with any units is read up to the zero byte behind them, as the text that has U+FFFD in place of
each surrogate outside a pair and the other units as they are. String data with the units of a string is what
is written for it, and is read as that string. -/
theorem stringData_of_units :
    (∀ units : List UInt16, units.length < extentBound →
      ∃ text, Utf16.encode text = Utf16.mended units ∧ Yields stringData (Write.unitData units) text) ∧
    ∀ s : String, Write.stringData s = Write.unitData (Utf16.encode s) ∧
      ((Utf16.encode s).length < extentBound → Yields stringData (Write.stringData s) s) := by
  refine ⟨fun units h => ⟨_, Utf16.encode_decodeLossy units, yields_unitData h⟩, fun s => ?_⟩
  refine ⟨Write.stringData_eq s, ?_⟩
  rw [← Utf16.length_eq]
  exact yields_stringData

/-- A surrogate between two letters, and a character outside the first plane behind a zero character. -/
theorem stringData_of_units_lone :
    (∃ text, Utf16.encode text = [0x61, 0xfffd, 0x62] ∧
      Yields stringData [0x03, 0x61, 0xed, 0xa0, 0x80, 0x62, 0x00] text) ∧
    Write.stringData "\x00😀" = [0x03, 0xc0, 0x80, 0xed, 0xa0, 0xbd, 0xed, 0xb8, 0x80, 0x00] ∧
    Yields stringData [0x03, 0xc0, 0x80, 0xed, 0xa0, 0xbd, 0xed, 0xb8, 0x80, 0x00] "\x00😀" := by
  obtain ⟨text, htext, hlone⟩ := stringData_of_units.1 [0x61, 0xd800, 0x62] (by decide)
  have hloneForm : Write.unitData [0x61, 0xd800, 0x62] = [0x03, 0x61, 0xed, 0xa0, 0x80, 0x62, 0x00] := by
    decide +kernel
  obtain ⟨hunits, hread⟩ := stringData_of_units.2 "\x00😀"
  have hform : Write.stringData "\x00😀" = [0x03, 0xc0, 0x80, 0xed, 0xa0, 0xbd, 0xed, 0xb8, 0x80, 0x00] :=
    hunits.trans (by decide +kernel)
  exact ⟨⟨text, htext, hloneForm ▸ hlone⟩, hform, hform ▸ hread (by decide)⟩

end Read

end Dalvik
