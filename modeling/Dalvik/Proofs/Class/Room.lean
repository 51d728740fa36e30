import Dalvik.Assembly.Data
import Dalvik.Image.Annotations
import Dalvik.Proofs.Class.Restrictions
import Dalvik.Proofs.Code.Room

/-!
# The room of classes

What is written of a class besides its entries takes up at most `ClassDef.room` bytes:
its definition, the annotations directory, the class data, its share of the hidden API
data, and for each method the list of the annotations of its parameters, the debug
information and the code item. The room of items includes the padding in front of them.
-/

namespace Dalvik

open Result

/-- The padding in front of an item takes up at most this many bytes. -/
def paddingRoom : Nat := 3

/-! ## The room of a class -/

namespace MethodDef

/-- The room of the annotations of the parameters. -/
def listRoom (m : MethodDef) : Nat :=
  4 + m.parameters.length * 4 + paddingRoom

def debugRoom (m : MethodDef) : Nat :=
  m.code.elim 0 fun code => DebugInfo.room m.parameters.length code.debug.length + paddingRoom

def codeRoom (m : MethodDef) : Nat :=
  m.code.elim 0 fun code => code.room + paddingRoom

end MethodDef

namespace ClassDef

/-- A directory has at most one entry for each field and two for each method. -/
def directoryRoom (c : ClassDef) : Nat :=
  16 + (c.fields.length + 2 * c.methods.length) * 8 + paddingRoom

/-- The class data have two numbers for each field and three for each method. -/
def dataRoom (c : ClassDef) : Nat :=
  4 * Leb128.maxLength + c.fields.length * (2 * Leb128.maxLength) + c.methods.length * (3 * Leb128.maxLength) +
    paddingRoom

/-- The room of the place of the flags and of the flags. -/
def flagsRoom (c : ClassDef) : Nat :=
  4 + c.restrictions.length * Leb128.maxLength

/-- The room of what the data have of a class besides its entries. -/
def itemsRoom (c : ClassDef) : Nat :=
  (c.methods.map MethodDef.listRoom).sum + c.directoryRoom + (c.methods.map MethodDef.debugRoom).sum +
    (c.methods.map MethodDef.codeRoom).sum + c.dataRoom + c.flagsRoom

/-- The bytes that a class takes up at most, without its entries. -/
def room (c : ClassDef) : Nat :=
  ClassDefItem.byteSize + c.itemsRoom

end ClassDef

namespace Members

/-! ## Class data -/

/-- There are no more forms than members. -/
theorem length_zipWith_flatten_le {α β : Type} {write : α → β → List UInt8} {size : Nat}
    (h : ∀ a b, (write a b).length ≤ size) (as : List α) (bs : List β) :
    (as.zipWith write bs).flatten.length ≤ bs.length * size := by
  induction as generalizing bs with
  | nil => exact Nat.zero_le _
  | cons a as ih =>
    cases bs with
    | nil => exact Nat.zero_le _
    | cons b bs =>
      rw [List.zipWith_cons_cons, List.flatten_cons, List.length_append, List.length_cons, Nat.succ_mul, Nat.add_comm]
      exact Nat.add_le_add (ih bs) (h a b)

theorem length_writeFields_le {p : Pools} {type : String} {fields : List FieldDef} {form : List UInt8}
    (h : writeFields p type fields = .ok form) : form.length ≤ fields.length * (2 * Leb128.maxLength) := by
  obtain ⟨ds, -, h⟩ := bind_eq_ok h
  cases h
  refine length_zipWith_flatten_le (fun delta f => ?_) ds fields
  have hdelta := Leb128.length_encodeUnsigned delta
  have hflags := Leb128.length_encodeUnsigned f.flags.bits
  rw [writeField, List.length_append, Write.uleb128, Write.uleb128]
  omega

theorem length_writeMethods_le {p : Pools} {codeOffsets : Std.HashMap MethodSig Nat} {type : String}
    {methods : List MethodDef} {form : List UInt8} (h : writeMethods p codeOffsets type methods = .ok form) :
    form.length ≤ methods.length * (3 * Leb128.maxLength) := by
  obtain ⟨ds, -, h⟩ := bind_eq_ok h
  cases h
  refine length_zipWith_flatten_le (fun delta m => ?_) ds methods
  have hdelta := Leb128.length_encodeUnsigned delta
  have hflags := Leb128.length_encodeUnsigned m.flags.bits
  have hoffset := Leb128.length_encodeUnsigned (offsetIn codeOffsets m.sig)
  simp only [writeMethod, List.length_append, Write.uleb128]
  omega

theorem length_writeClassData_le {p : Pools} {codeOffsets : Std.HashMap MethodSig Nat} {c : ClassDef}
    {form : List UInt8} (h : writeClassData p codeOffsets c = .ok form) : form.length + paddingRoom ≤ c.dataRoom := by
  obtain ⟨statics, hstatics, h⟩ := bind_eq_ok h
  obtain ⟨instances, hinstances, h⟩ := bind_eq_ok h
  obtain ⟨directs, hdirects, h⟩ := bind_eq_ok h
  obtain ⟨virtuals, hvirtuals, h⟩ := bind_eq_ok h
  cases h
  have hstatics := length_writeFields_le hstatics
  have hinstances := length_writeFields_le hinstances
  have hdirects := length_writeMethods_le hdirects
  have hvirtuals := length_writeMethods_le hvirtuals
  have hcount {α : Type} (members : List α) : (writeCount members).length ≤ Leb128.maxLength :=
    Leb128.length_encodeUnsigned _
  have hstaticCount := hcount c.staticFields
  have hinstanceCount := hcount c.instanceFields
  have hdirectCount := hcount c.directMethods
  have hvirtualCount := hcount c.virtualMethods
  simp only [List.length_append, ClassDef.dataRoom, ClassDef.fields, ClassDef.methods, Nat.add_mul]
  omega

/-! ## Annotations -/

theorem length_parameterSets (sets : SetOffsets) (m : MethodDef) :
    (Layout.write (parameterSets sets m)).length = 4 + m.parameters.length * 4 := by
  rw [parameterSets, Layout.length_sizedList fun item _ => Layout.length_offsetEntry item, List.length_map]

theorem length_directory_le (p : Pools) (sets : SetOffsets) (parameterOffsets : Std.HashMap MethodSig Nat)
    (c : ClassDef) : (Layout.write (directory p sets parameterOffsets c)).length + paddingRoom ≤ c.directoryRoom := by
  have hentries {α : Type} (members : List α) (has : α → Bool) (entry : α → UInt32 × UInt32) :
      (sortedEntries ((members.filter has).map entry)).length ≤ members.length := by
    rw [sortedEntries, List.length_mergeSort, List.length_map]
    exact List.length_filter_le ..
  have hfields := hentries c.fields (fun f => !f.annotations.isEmpty) fun f =>
    (p.fields.indexOrNone f.sig, setOffset sets f.annotations)
  have hmethods := hentries c.methods (fun m => !m.annotations.isEmpty) fun m =>
    (p.methods.indexOrNone m.sig, setOffset sets m.annotations)
  have hparameters := hentries c.methods (fun m => parameterOffsets.contains m.sig) fun m =>
    (p.methods.indexOrNone m.sig, offsetIn parameterOffsets m.sig)
  rw [DirectoryItem.length_write, directory, ClassDef.directoryRoom]
  dsimp only
  omega

/-! ## Hidden API data -/

theorem length_writeFlags_le (c : ClassDef) : (writeFlags c).length ≤ c.restrictions.length * Leb128.maxLength := by
  unfold writeFlags
  split
  · rw [List.flatMap_def, ← List.length_map fun r : Option HiddenApi =>
      Write.uleb128 (UInt32.ofNat ((r.map HiddenApi.value).getD 0))]
    refine CodeItem.length_flatten_le fun form hform => ?_
    obtain ⟨r, -, rfl⟩ := List.mem_map.mp hform
    exact Leb128.length_encodeUnsigned _
  · exact Nat.zero_le _

theorem length_writeHiddenApi_le (classes : List ClassDef) :
    (writeHiddenApi classes).length ≤ 4 + (classes.map ClassDef.flagsRoom).sum := by
  have hplaces : ((flagOffsets (4 + 4 * classes.length) (classes.map writeFlags)).flatMap fun place =>
      Write.uint (UInt32.ofNat place)).length = classes.length * 4 := by
    rw [length_flatMap_of_forall fun place _ => Write.length_uint _, length_flagOffsets, List.length_map]
  have hflags : (classes.map writeFlags).flatten.length ≤
      (classes.map fun c => c.restrictions.length * Leb128.maxLength).sum :=
    length_flatten_le_sum (List.forall₂_map_right_iff.mpr (List.forall₂_same.mpr fun c _ => length_writeFlags_le c))
  have hroom : (classes.map ClassDef.flagsRoom).sum =
      classes.length * 4 + (classes.map fun c => c.restrictions.length * Leb128.maxLength).sum := by
    show (classes.map fun c => 4 + c.restrictions.length * Leb128.maxLength).sum = _
    rw [List.sum_map_add, List.map_const', List.sum_replicate_nat]
  rw [writeHiddenApi]
  simp only [List.length_append, Write.length_uint, hplaces, hroom]
  omega

end Members

end Dalvik
