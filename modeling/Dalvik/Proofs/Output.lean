import Dalvik.Output
import Dalvik.Proofs.Reading

/-!
# Output that stands in a file

An output only grows, and what stands in a file once it is complete stood there
from the time that it was appended (`holds_append`).
-/

namespace Dalvik.Output

variable {out out' out'' : Output}

@[simp] theorem append_toList (added : List UInt8) : (out.append added).bytes.toList = out.bytes.toList ++ added := by
  simp [append]

@[simp] theorem append_position (added : List UInt8) : (out.append added).position = out.position + added.length := by
  rw [position, position, ← Array.length_toList, append_toList, List.length_append, Array.length_toList]
  exact (Nat.add_assoc ..).symm

/-! ## Growing -/

/-- The second output has the bytes of the first one and more. -/
def Extends (out out' : Output) : Prop :=
  out'.base = out.base ∧ ∃ more, out'.bytes.toList = out.bytes.toList ++ more

namespace Extends

theorem rfl : Extends out out := ⟨Eq.refl _, [], (List.append_nil _).symm⟩

theorem trans (h : Extends out out') (h' : Extends out' out'') : Extends out out'' := by
  obtain ⟨hbase, more, hmore⟩ := h
  obtain ⟨hbase', more', hmore'⟩ := h'
  exact ⟨hbase'.trans hbase, more ++ more', by rw [hmore', hmore, List.append_assoc]⟩

theorem append (added : List UInt8) : Extends out (out.append added) :=
  ⟨Eq.refl _, added, append_toList added⟩

theorem align (alignment : Nat) : Extends out (out.align alignment) :=
  append _

theorem position_le (h : Extends out out') : out.position ≤ out'.position := by
  obtain ⟨hbase, more, hmore⟩ := h
  have := congrArg List.length hmore
  rw [List.length_append, Array.length_toList, Array.length_toList] at this
  rw [position, position, hbase]
  omega

end Extends

/-! ## Alignment -/

/-- What is aligned needs no padding. -/
theorem padding_eq_zero {position alignment : Nat} (h : position % alignment = 0) : padding position alignment = 0 := by
  rw [padding, h, Nat.sub_zero, Nat.mod_self]

theorem align_position_mod {alignment : Nat} (h : 0 < alignment) : (out.align alignment).position % alignment = 0 := by
  have hlt := Nat.mod_lt out.position h
  rw [align, append_position, List.length_replicate, padding, Nat.add_mod_mod, ← Nat.mod_add_mod]
  rw [Nat.add_sub_cancel' (Nat.le_of_lt hlt), Nat.mod_self]

theorem align_position_le {alignment : Nat} (hpos : 0 < alignment) (hle : alignment ≤ 4) :
    (out.align alignment).position ≤ out.position + 3 := by
  have hlt : padding out.position alignment < alignment := Nat.mod_lt _ hpos
  rw [align, append_position, List.length_replicate]
  omega

theorem align_eq_self {alignment : Nat} (h : out.position % alignment = 0) : out.align alignment = out := by
  rw [align, padding_eq_zero h]
  simp [append]

theorem align_align {alignment : Nat} (h : 0 < alignment) :
    (out.align alignment).align alignment = out.align alignment :=
  align_eq_self (align_position_mod h)

/-! ## Standing in a file -/

/-- The bytes of the output stand in a file at its base. -/
def In (out : Output) (bytes : Bytes) : Prop :=
  bytes.Holds out.base out.bytes.toList

namespace In

variable {bytes : Bytes}

theorem of_extends (h : Extends out out') (hin : out'.In bytes) : out.In bytes := by
  obtain ⟨hbase, more, hmore⟩ := h
  rw [In, hbase, hmore] at hin
  exact hin.left

/-- What has been appended stands where the position was. -/
theorem holds_append {added : List UInt8} (h : (out.append added).In bytes) : bytes.Holds out.position added := by
  rw [In, append_toList] at h
  exact h.right

end In

end Dalvik.Output
