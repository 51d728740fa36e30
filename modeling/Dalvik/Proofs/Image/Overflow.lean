import Dalvik.Proofs.Image.Bisection
import Dalvik.Proofs.Image.Readers

/-!
# Offsets and sizes fit into machine words

What the views of an image compute with offsets and sizes is written once more in words of
32 or 64 bits (`StoredCode.sizeWord` and so on), and shown to be what the views are defined
by. The bounds come from the checks when a view is opened: `StoredDirectory.Within`,
`StoredClass.Within` and `StoredCode.Within` say what is left of them, and
`Image.within_of_ofBytes` that an image itself is within bounds.
-/

namespace Dalvik

/-! ## Computations -/

/-- A computation in machine words: it gives nothing where a number does not fit, and
otherwise it ends in a value or a failure. -/
abbrev Checked := ExceptT Error Option

namespace Checked

variable {α β : Type}

/-- An outcome, as a computation in which every number fits. -/
def ofResult (r : Result α) : Checked α :=
  ExceptT.mk (some r)

/-- A number that has to fit. -/
def ofWord (n : Option α) : Checked α :=
  ExceptT.mk (n.map .ok)

@[simp] theorem ofWord_some (a : α) : ofWord (some a) = ofResult (.ok a) := rfl

@[simp] theorem ofResult_ok_bind (a : α) (next : α → Checked β) : ofResult (.ok a) >>= next = next a := rfl

theorem ofResult_bind (r : Result α) {next : α → Checked β} {f : α → Result β}
    (h : ∀ a, r = .ok a → next a = ofResult (f a)) : ofResult r >>= next = ofResult (r >>= f) := by
  cases r with
  | error e => rfl
  | ok a => exact h a rfl

end Checked

open Read

/-- What is made of a value that is read. -/
theorem Read.at?_map {α β : Type} (step : Read α) (f : α → β) (bytes : Bytes) (offset : Nat) :
    (step >>= fun a => pure (f a)).at? bytes offset = (step.at? bytes offset).map f := by
  by_cases hle : offset ≤ bytes.size
  · rw [at?_eq _ _ _ hle, at?_eq _ _ _ hle, on_bind]
    rcases step.on bytes offset with ⟨e | a, next⟩ <;> rfl
  · simp only [at?, on_bind, on_seek, if_pos (Nat.not_le.mp hle)]
    rfl

/-- A number takes no more bytes than the longest one. -/
theorem Read.uleb128_le {bytes : Bytes} {offset next : Nat} {v : UInt32}
    (h : Read.uleb128.on bytes offset = (.ok v, next)) : next ≤ offset + Leb128.maxLength := by
  simp only [Read.uleb128, leb128, on_bind, on_tell, on_read] at h
  split at h
  · rename_i v count hdecode
    cases h
    exact Nat.add_le_add_left (Leb128.decodeUnsigned_count hdecode).1 offset
  · cases h
  · cases h

theorem Read.smallUleb128_le {bytes : Bytes} {offset next : Nat} {v : UInt32}
    (h : Read.smallUleb128.on bytes offset = (.ok v, next)) : next ≤ offset + Leb128.maxLength := by
  obtain ⟨_, _, htell, h⟩ := on_bind_eq_ok h
  cases htell
  obtain ⟨value, middle, hvalue, h⟩ := on_bind_eq_ok h
  split at h
  · cases h
  · cases h
    exact uleb128_le hvalue

/-- What is read as a size or an offset is small. -/
theorem Read.smallUint_lt {bytes : Bytes} {offset next : Nat} {v : UInt32}
    (h : Read.smallUint.on bytes offset = (.ok v, next)) : v.toNat < extentBound := by
  obtain ⟨_, _, -, h⟩ := on_bind_eq_ok h
  obtain ⟨value, _, -, h⟩ := on_bind_eq_ok h
  split at h
  · cases h
  · cases h
    omega

/-! ## Items by index -/

namespace Image

/-- The bytes of the image are few enough for the readers, and so is the offset that the
map gives. -/
structure Within (image : Image) : Prop where
  bytes_lt : image.bytes.size < extentBound
  hiddenApi_lt : ∀ start ∈ image.hiddenApi, start < extentBound

/-- The offset of an item, in words of 64 bits. -/
def itemOffsetWord (what : String) (index count : UInt32) (start size : Nat) : Checked Nat :=
  if index < count then do
    let distance ← .ofWord (Word.mul 64 index.toNat size)
    .ofWord (Word.add 64 start distance)
  else .ofResult (.fail (.indexOutOfBounds what index.toNat count.toNat))

theorem itemOffsetWord_eq (what : String) (index count : UInt32) {start size : Nat} (hstart : start < 2 ^ 32)
    (hsize : size ≤ 32) : itemOffsetWord what index count start size =
      .ofResult (itemOffset what index count start size) := by
  have hindex := index.toNat_lt
  have hproduct := Nat.mul_le_mul_left index.toNat hsize
  rw [itemOffsetWord, itemOffset]
  split
  · rw [Word.mul_eq (by omega), Checked.ofWord_some, Checked.ofResult_ok_bind, Word.add_eq (by omega)]
    rfl
  · rfl

/-- What is made of a value that is read and of the offset behind it, which has to fit into 32
bits. -/
def markWord {α β : Type} (image : Image) (step : Read α) (f : α → UInt32 → β) (offset : Nat) : Checked β := do
  let (a, last) ← .ofResult (image.readAt (do return (← step, ← Read.tell)) offset)
  return f a (UInt32.ofNat (← .ofWord (Word.fit 32 last)))

theorem markWord_eq {α β : Type} {image : Image} (hbytes : image.bytes.size < extentBound) {step : Read α}
    (h : Guarded step) (f : α → UInt32 → β) (offset : Nat) : image.markWord step f offset =
      .ofResult (image.readAt (step >>= fun a => Read.mark >>= fun last => pure (f a last)) offset) := by
  rw [extentBound] at hbytes
  unfold markWord readAt
  by_cases hle : offset ≤ image.bytes.size
  · have hlast := (h.moves _ _ hle).2
    simp only [at?_eq _ _ _ hle, on_bind, on_tell, on_mark]
    rcases hon : step.on image.bytes offset with ⟨e | a, last⟩
    · rfl
    · rw [hon] at hlast
      simp only [on_pure, Checked.ofResult_ok_bind, Word.fit_eq (show last < 2 ^ 32 by omega)]
      rfl
  · simp only [at?, on_bind, on_seek, if_pos (Nat.not_le.mp hle)]
    rfl

end Image

/-! ## Annotations -/

namespace StoredDirectory

/-- The bytes that the entries of all tables take, in words of 64 bits. -/
def entriesSizeWord (fieldCount methodCount parameterCount : Nat) : Option Nat := do
  Word.mul 64 (← Word.add 64 (← Word.add 64 fieldCount methodCount) parameterCount) entrySize

/-- Where a table begins, in words of 64 bits. -/
def tableStartWord (d : StoredDirectory) (preceding : Nat) : Option Nat := do
  Word.add 64 (← Word.add 64 d.offset headSize) (← Word.mul 64 preceding entrySize)

/-- The search in a table: indices are computed in words of 32 bits, offsets in words of
64 bits. -/
def searchWord (image : Image) (start : Nat) (index : UInt32) (low high : Nat) : Checked Nat :=
  if low < high then do
    let middle := low + (high - low) / 2
    let _ ← .ofWord (do Word.add 32 low ((← Word.sub high low) / 2))
    let entry ← .ofWord (do Word.add 64 start (← Word.mul 64 middle entrySize))
    let key ← .ofResult (image.readAt Read.uint entry)
    if key = index then do
      let found ← .ofWord (Word.add 64 entry 4)
      return (← .ofResult (image.readAt Read.smallUint found)).toNat
    else if key < index then do
      let _ ← .ofWord (Word.add 32 middle 1)
      searchWord image start index (middle + 1) high
    else searchWord image start index low middle
  else return 0
termination_by high - low

theorem entriesSizeWord_eq (fieldCount methodCount parameterCount : UInt32) :
    entriesSizeWord fieldCount.toNat methodCount.toNat parameterCount.toNat =
      some ((fieldCount.toNat + methodCount.toNat + parameterCount.toNat) * entrySize) := by
  have hfields := fieldCount.toNat_lt
  have hmethods := methodCount.toNat_lt
  have hparameters := parameterCount.toNat_lt
  simp only [entriesSizeWord, entrySize, Word.add_eq (show fieldCount.toNat + methodCount.toNat < 2 ^ 64 by omega),
    Word.add_eq (show fieldCount.toNat + methodCount.toNat + parameterCount.toNat < 2 ^ 64 by omega),
    Option.bind_eq_bind, Option.bind_some]
  exact Word.mul_eq (by omega)

theorem searchWord_eq (image : Image) {start : Nat} (hstart : start < 2 ^ 63) (index : UInt32) {low high : Nat}
    (hhigh : high < 2 ^ 31) :
    searchWord image start index low high = .ofResult (search image start index low high) := by
  induction hsize : high - low using Nat.strong_induction_on generalizing low high with
  | _ size ih =>
    rw [searchWord, search]
    split
    · obtain ⟨middle, hmiddle⟩ : ∃ middle, low + (high - low) / 2 = middle := ⟨_, rfl⟩
      have hdistance : middle * entrySize = 8 * middle := Nat.mul_comm middle 8
      dsimp only
      rw [hmiddle, Word.sub_eq (by omega)]
      simp only [Option.bind_eq_bind, Option.bind_some, hmiddle,
        Word.add_eq (show low + (high - low) / 2 < 2 ^ 32 by omega),
        Word.mul_eq (show middle * entrySize < 2 ^ 64 by omega),
        Word.add_eq (show start + middle * entrySize < 2 ^ 64 by omega),
        Word.add_eq (show start + middle * entrySize + 4 < 2 ^ 64 by omega),
        Word.add_eq (show middle + 1 < 2 ^ 32 by omega), Checked.ofWord_some, Checked.ofResult_ok_bind]
      refine Checked.ofResult_bind _ fun key _ => ?_
      split
      · exact Checked.ofResult_bind _ fun _ _ => rfl
      · split
        · exact ih _ (by omega) hhigh rfl
        · exact ih _ (by omega) (by omega) rfl
    · rfl

/-- The search in the table of `count` entries that follows `preceding` other entries, in
machine words. -/
def lookupWord (d : StoredDirectory) (preceding count : Nat) (index : UInt32) : Checked Nat := do
  searchWord d.image (← .ofWord (d.tableStartWord preceding)) index 0 count

/-- The offset of the annotations of a field, in machine words. -/
def fieldOffsetWord (d : StoredDirectory) (index : UInt32) : Checked Nat :=
  d.lookupWord 0 d.fieldCount index

/-- The offset of the annotations of a method, in machine words. -/
def methodOffsetWord (d : StoredDirectory) (index : UInt32) : Checked Nat :=
  d.lookupWord d.fieldCount d.methodCount index

/-- The offset of the annotations of the parameters of a method, in machine words. -/
def parameterOffsetWord (d : StoredDirectory) (index : UInt32) : Checked Nat := do
  d.lookupWord (← .ofWord (Word.add 32 d.fieldCount d.methodCount)) d.parameterCount index

/-- The directory begins within the bytes, and so do the entries of its tables. -/
structure Within (d : StoredDirectory) : Prop where
  offset_le : d.offset ≤ d.image.bytes.size
  entries_le : (d.fieldCount + d.methodCount + d.parameterCount) * entrySize ≤ d.image.bytes.size

theorem within_of_at? {image : Image} {offset : Nat} {d : StoredDirectory}
    (h : StoredDirectory.at? image offset = .ok d) : d.image = image ∧ d.Within := by
  rcases cases_of_at? h with ⟨rfl, rfl⟩ | ⟨-, rfl, rfl, hle⟩
  · exact ⟨rfl, Nat.zero_le _, Nat.le_trans (Nat.le_of_eq (Nat.zero_mul _)) (Nat.zero_le _)⟩
  · rw [tableStart] at hle
    exact ⟨rfl, by omega, by omega⟩

section computations

variable {d : StoredDirectory} (h : d.Within) (hbytes : d.image.bytes.size < extentBound)

include h hbytes

theorem lookupWord_eq {preceding count : Nat} (hentries : (preceding + count) * entrySize ≤ d.image.bytes.size)
    (index : UInt32) :
    d.lookupWord preceding count index = .ofResult (search d.image (d.tableStart preceding) index 0 count) := by
  have hoffset := h.offset_le
  rw [extentBound] at hbytes
  rw [entrySize] at hentries
  have hstart : d.tableStartWord preceding = some (d.tableStart preceding) := by
    simp only [tableStartWord, headSize, entrySize, Word.add_eq (show d.offset + 16 < 2 ^ 64 by omega),
      Word.mul_eq (show preceding * 8 < 2 ^ 64 by omega), Option.bind_eq_bind, Option.bind_some]
    exact Word.add_eq (by omega)
  have hlt : d.tableStart preceding < 2 ^ 63 := by
    rw [tableStart, headSize, entrySize]
    omega
  rw [lookupWord, hstart]
  exact searchWord_eq _ hlt _ (by omega)

theorem fieldOffsetWord_eq (index : UInt32) : d.fieldOffsetWord index = .ofResult (d.fieldOffset index) := by
  have hentries := h.entries_le
  exact lookupWord_eq h hbytes (Nat.le_trans (Nat.mul_le_mul_right _ (by omega)) hentries) index

theorem methodOffsetWord_eq (index : UInt32) : d.methodOffsetWord index = .ofResult (d.methodOffset index) := by
  have hentries := h.entries_le
  exact lookupWord_eq h hbytes (Nat.le_trans (Nat.mul_le_mul_right _ (by omega)) hentries) index

theorem parameterOffsetWord_eq (index : UInt32) :
    d.parameterOffsetWord index = .ofResult (d.parameterOffset index) := by
  have hentries := h.entries_le
  have hsum : d.fieldCount + d.methodCount < 2 ^ 32 := by
    rw [entrySize] at hentries
    rw [extentBound] at hbytes
    omega
  rw [parameterOffsetWord, Word.add_eq hsum, Checked.ofWord_some, Checked.ofResult_ok_bind]
  exact lookupWord_eq h hbytes hentries index

end computations

end StoredDirectory

namespace Image

/-- Where the offset of an annotation of a set stands, in words of 64 bits. -/
def setEntryWord (offset index : Nat) : Option Nat := do
  Word.add 64 (← Word.add 64 offset 4) (← Word.mul 64 4 index)

theorem setEntryWord_eq {offset index : Nat} (hoffset : offset < 2 ^ 32) (hindex : index < 2 ^ 32) :
    setEntryWord offset index = some (offset + 4 + 4 * index) := by
  simp only [setEntryWord, Word.add_eq (show offset + 4 < 2 ^ 64 by omega),
    Word.mul_eq (show 4 * index < 2 ^ 64 by omega), Option.bind_eq_bind, Option.bind_some]
  exact Word.add_eq (by omega)

/-- The elements of an annotation begin within the bytes. -/
theorem elementsOffset_le {image : Image} {offset : Nat} {a : StoredAnnotationItem}
    (h : image.annotationAt offset = .ok a) : a.elementsOffset ≤ image.bytes.size := by
  obtain ⟨hle, last, hon⟩ := exists_of_at? h
  have hlast := (guarded_readAnnotationHead image).moves image.bytes offset hle
  rw [readAnnotationHead] at hlast
  rw [hon] at hlast
  obtain ⟨_, _, -, hon⟩ := on_bind_eq_ok hon
  obtain ⟨_, _, -, hon⟩ := on_bind_eq_ok hon
  obtain ⟨_, _, -, hon⟩ := on_bind_eq_ok hon
  obtain ⟨_, _, htell, hon⟩ := on_bind_eq_ok hon
  cases htell
  cases hon
  exact hlast.2

end Image

/-! ## Classes -/

namespace StoredClass

/-- The least number of bytes that members can take, in words of 64 bits. -/
def countsWord (statics instances directs virtuals : Nat) : Option Nat := do
  let fields ← Word.mul 64 2 (← Word.add 64 statics instances)
  let methods ← Word.mul 64 3 (← Word.add 64 directs virtuals)
  Word.add 64 fields methods

theorem countsWord_eq (statics instances directs virtuals : UInt32) :
    countsWord statics.toNat instances.toNat directs.toNat virtuals.toNat =
      some (2 * (statics.toNat + instances.toNat) + 3 * (directs.toNat + virtuals.toNat)) := by
  have hstatics := statics.toNat_lt
  have hinstances := instances.toNat_lt
  have hdirects := directs.toNat_lt
  have hvirtuals := virtuals.toNat_lt
  simp only [countsWord, Word.add_eq (show statics.toNat + instances.toNat < 2 ^ 64 by omega),
    Word.mul_eq (show 2 * (statics.toNat + instances.toNat) < 2 ^ 64 by omega),
    Word.add_eq (show directs.toNat + virtuals.toNat < 2 ^ 64 by omega),
    Word.mul_eq (show 3 * (directs.toNat + virtuals.toNat) < 2 ^ 64 by omega), Option.bind_eq_bind, Option.bind_some]
  exact Word.add_eq (by omega)

/-- The offset behind the numbers of `count` members, in words of 32 bits. -/
def skipMembersWord (image : Image) (offset count numbers : Nat) : Checked UInt32 := do
  let total ← .ofWord (Word.mul 32 numbers count)
  image.markWord (repeated (discard uleb128) total) (fun _ last => last) offset

/-- Where a list of members begins, in words of 32 bits. -/
def listStartWord (c : StoredClass) : MemberKind → Checked UInt32
  | .staticField => return c.membersOffset
  | .instanceField => skipMembersWord c.image c.membersOffset.toNat c.staticCount 2
  | .directMethod => do
    let fields ← skipMembersWord c.image c.membersOffset.toNat c.staticCount 2
    skipMembersWord c.image fields.toNat c.instanceCount 2
  | .virtualMethod => do
    let fields ← skipMembersWord c.image c.membersOffset.toNat c.staticCount 2
    let direct ← skipMembersWord c.image fields.toNat c.instanceCount 2
    skipMembersWord c.image direct.toNat c.directCount 3

/-- The number of members in front of a list, in words of 32 bits. -/
def precedingWord (c : StoredClass) (kind : MemberKind) : Option Nat :=
  Word.addAll 32 0 (match kind with
    | .staticField => [0, 0, 0]
    | .instanceField => [c.staticCount, 0, 0]
    | .directMethod => [c.staticCount, c.instanceCount, 0]
    | .virtualMethod => [c.staticCount, c.instanceCount, c.directCount])

/-- Where the hidden API flags of a class begin: the place of their offset is computed in
words of 64 bits, and where that leads to in words of 32 bits. -/
def hiddenStartWord (c : StoredClass) : Checked (Option Nat) :=
  match c.image.hiddenApi with
  | none => return none
  | some start => do
    let place ← .ofWord (do Word.add 64 (← Word.add 64 start 4) (← Word.mul 64 4 c.index.toNat))
    let relative ← .ofResult (c.image.readAt Read.smallUint place)
    if relative = 0 then return none
    else return some (← .ofWord (Word.add 32 start relative.toNat))

/-- Where the initial values of the static fields begin, in words of 32 bits. -/
def staticValuesWord (c : StoredClass) : Checked (Option (UInt32 × Nat)) :=
  if c.item.staticValuesOffset = noOffset then return none
  else c.image.markWord smallUleb128 (fun count first => some (first, count.toNat)) c.item.staticValuesOffset.toNat

/-- Where the reading of a list begins, in machine words. -/
def startWord (c : StoredClass) (kind : MemberKind) : Checked MemberCursor := do
  let offset ← c.listStartWord kind
  let first ← .ofWord (c.precedingWord kind)
  let values ← if kind = .staticField then c.staticValuesWord else pure none
  let hidden ←
    match ← c.hiddenStartWord with
    | none => pure none
    | some start => some <$> skipMembersWord c.image start first 1
  return { offset, values, hidden }

/-- The class stands within the bytes: there is room for its members, and its directory
stands within the bytes as well. -/
structure Within (c : StoredClass) : Prop where
  image : c.image.Within
  counts_le : 2 * (c.staticCount + c.instanceCount) + 3 * (c.directCount + c.virtualCount) ≤ c.image.bytes.size
  directory_image : c.directory.image = c.image
  directory : c.directory.Within

theorem within_of_at? {image : Image} (himage : image.Within) {index : UInt32} {c : StoredClass}
    (h : StoredClass.at? image index = .ok c) : c.image = image ∧ c.Within := by
  obtain ⟨offset, -, h⟩ := Result.bind_eq_ok h
  obtain ⟨item, -, h⟩ := Result.bind_eq_ok h
  obtain ⟨directory, hdirectory, h⟩ := Result.bind_eq_ok h
  obtain ⟨hdirectoryImage, hwithin⟩ := StoredDirectory.within_of_at? (Result.within_eq_ok hdirectory)
  dsimp only at h
  split at h
  · cases h
    exact ⟨rfl, himage, Nat.le_trans (Nat.le_of_eq rfl) (Nat.zero_le _), hdirectoryImage, hwithin⟩
  · obtain ⟨last, hsizes, -, -⟩ := (guarded_readSizes _ _).of_at? h
    obtain ⟨counted, _, hon, hmark⟩ := on_bind_eq_ok hsizes
    cases hmark
    obtain ⟨statics, _, -, hon⟩ := on_bind_eq_ok hon
    obtain ⟨instances, _, -, hon⟩ := on_bind_eq_ok hon
    obtain ⟨directs, _, -, hon⟩ := on_bind_eq_ok hon
    obtain ⟨virtuals, middle, -, hon⟩ := on_bind_eq_ok hon
    obtain ⟨left, _, hleft, hon⟩ := on_bind_eq_ok hon
    rw [on_remaining] at hleft
    cases hleft
    dsimp only at hon
    split at hon
    · cases hon
    · rename_i hcounts
      cases hon
      exact ⟨rfl, himage, Nat.le_trans (Nat.not_lt.mp hcounts) (Nat.sub_le _ _), hdirectoryImage, hwithin⟩

/-! ### Lists of members -/

theorem skipMembersWord_eq {image : Image} (hbytes : image.bytes.size < extentBound) (offset : Nat)
    {count numbers : Nat} (htotal : numbers * count < 2 ^ 32) :
    skipMembersWord image offset count numbers = .ofResult (skipNumbers image offset (numbers * count)) := by
  rw [skipMembersWord, Word.mul_eq htotal, Checked.ofWord_some, Checked.ofResult_ok_bind]
  exact Image.markWord_eq hbytes (Guarded.uleb128.discard.repeated _) _ offset

section computations

variable {c : StoredClass} (h : c.Within)

include h

theorem listStartWord_eq (kind : MemberKind) : c.listStartWord kind = .ofResult (c.listStart kind) := by
  have hbytes := h.image.bytes_lt
  have hcounts := h.counts_le
  have hsize := hbytes
  rw [extentBound] at hsize
  have hskip (offset : Nat) {count numbers : Nat} (htotal : numbers * count < 2 ^ 32) :=
    skipMembersWord_eq hbytes offset htotal
  have hstatic := hskip c.membersOffset.toNat (show 2 * c.staticCount < 2 ^ 32 by omega)
  cases kind with
  | staticField => rfl
  | instanceField => exact hstatic
  | directMethod =>
    rw [listStartWord, hstatic]
    exact Checked.ofResult_bind _ fun fields _ => hskip fields.toNat (by omega)
  | virtualMethod =>
    rw [listStartWord, hstatic]
    refine Checked.ofResult_bind _ fun fields _ => ?_
    rw [hskip fields.toNat (show 2 * c.instanceCount < 2 ^ 32 by omega)]
    exact Checked.ofResult_bind _ fun direct _ => hskip direct.toNat (by omega)

theorem precedingWord_eq (kind : MemberKind) : c.precedingWord kind = some (c.preceding kind) := by
  have hsize := h.image.bytes_lt
  have hcounts := h.counts_le
  rw [extentBound] at hsize
  cases kind <;>
  · rw [precedingWord, Word.addAll_eq (by simp only [List.sum_cons, List.sum_nil]; omega)]
    simp [preceding, Nat.add_assoc]

theorem Within.preceding_lt (kind : MemberKind) : c.preceding kind < 2 ^ 31 := by
  have hsize := h.image.bytes_lt
  have hcounts := h.counts_le
  rw [extentBound] at hsize
  cases kind <;> simp only [preceding] <;> omega

theorem hiddenStartWord_eq : c.hiddenStartWord = .ofResult c.hiddenStart := by
  rw [hiddenStartWord, hiddenStart]
  cases hstart : c.image.hiddenApi with
  | none => rfl
  | some start =>
    have hlt := h.image.hiddenApi_lt start hstart
    have hindex := c.index.toNat_lt
    rw [extentBound] at hlt
    simp only [Word.add_eq (show start + 4 < 2 ^ 64 by omega), Word.mul_eq (show 4 * c.index.toNat < 2 ^ 64 by omega),
      Word.add_eq (show start + 4 + 4 * c.index.toNat < 2 ^ 64 by omega), Option.bind_eq_bind, Option.bind_some,
      Checked.ofWord_some, Checked.ofResult_ok_bind]
    refine Checked.ofResult_bind _ fun relative hrelative => ?_
    obtain ⟨-, _, hrelative⟩ := exists_of_at? hrelative
    have hsmall : relative.toNat < 0x80000000 := smallUint_lt hrelative
    split
    · rfl
    · rw [Word.add_eq (by omega)]
      rfl

theorem staticValuesWord_eq : c.staticValuesWord = .ofResult c.staticValues := by
  rw [staticValuesWord, staticValues]
  split
  · rfl
  · exact Image.markWord_eq h.image.bytes_lt .smallUleb128 _ _

/-- Where the reading of a list begins fits into words. -/
theorem startWord_eq (kind : MemberKind) : c.startWord kind = .ofResult (c.start kind) := by
  have hpreceding := h.preceding_lt kind
  have hhidden (offset : UInt32) (values : Option (UInt32 × Nat)) : (do
      let hidden ←
        match ← c.hiddenStartWord with
        | none => pure none
        | some start => some <$> skipMembersWord c.image start (c.preceding kind) 1
      return ({ offset, values, hidden } : MemberCursor)) = Checked.ofResult (do
      let hidden ←
        match ← c.hiddenStart with
        | none => pure none
        | some start => (skipNumbers c.image start (c.preceding kind)).map some
      return { offset, values, hidden }) := by
    rw [hiddenStartWord_eq h]
    refine Checked.ofResult_bind _ fun start _ => ?_
    cases start with
    | none => rfl
    | some start =>
      dsimp only
      rw [skipMembersWord_eq h.image.bytes_lt start (by omega), Nat.one_mul]
      cases skipNumbers c.image start (c.preceding kind) <;> rfl
  rw [startWord, listStartWord_eq h, precedingWord_eq h, Checked.ofWord_some]
  refine Checked.ofResult_bind _ fun offset _ => ?_
  rw [Checked.ofResult_ok_bind]
  dsimp only
  split
  · rw [staticValuesWord_eq h]
    exact Checked.ofResult_bind _ fun values _ => hhidden offset values
  · exact hhidden offset none

end computations

/-! ### Entries -/

/-- Steps over the initial value of the next field, with offsets in words of 32 bits. -/
def nextValueWord (image : Image) : Option (UInt32 × Nat) → Checked (Option UInt32 × Option (UInt32 × Nat))
  | some (offset, left + 1) => do
    let next ← image.markWord Value.skip (fun _ next => next) offset.toNat
    return (some offset, some (next, left))
  | values => return (none, values)

/-- Reads the hidden API flags of the next member, with offsets in words of 32 bits. -/
def nextHiddenWord (image : Image) : Option UInt32 → Checked (Option UInt32 × Option UInt32)
  | none => return (none, none)
  | some offset => image.markWord uleb128 (fun flags next => (some flags, some next)) offset.toNat

/-- Reads the next entry of a list, with offsets and its size in words of 32 bits. -/
def nextEntryWord (image : Image) (kind : MemberKind) (cursor : MemberCursor) :
    Checked (MemberEntry × MemberCursor) := do
  let ((delta, flags, codeOffset), last) ← image.markWord (readOwn kind) Prod.mk cursor.offset.toNat
  let (valueOffset, values) ← nextValueWord image cursor.values
  let (hiddenFlags, hidden) ← nextHiddenWord image cursor.hidden
  let index := cursor.previous + delta
  let size ← .ofWord (Word.sub last.toNat cursor.offset.toNat)
  return ({ index, flags, codeOffset, size, valueOffset, hiddenFlags },
    { offset := last, previous := index, values, hidden })

/-- What an entry itself holds takes no more bytes than three numbers do. -/
theorem le_of_readOwn {kind : MemberKind} {bytes : Bytes} {offset codeOffset last : Nat} {delta flags : UInt32}
    (h : (readOwn kind).on bytes offset = (.ok (delta, flags, codeOffset), last)) :
    last ≤ offset + 3 * Leb128.maxLength := by
  obtain ⟨delta, first, hdelta, h⟩ := on_bind_eq_ok h
  obtain ⟨flags, second, hflags, h⟩ := on_bind_eq_ok h
  have hfirst := uleb128_le hdelta
  have hsecond := smallUleb128_le hflags
  dsimp only at h
  split at h
  · rw [map_eq_pure_bind] at h
    obtain ⟨code, third, hcode, h⟩ := on_bind_eq_ok h
    obtain ⟨offset, fourth, hoffset, hcode⟩ := on_bind_eq_ok hcode
    have hthird := smallUleb128_le hoffset
    cases hcode
    cases h
    omega
  · cases h
    omega

section

variable {image : Image} (hbytes : image.bytes.size < extentBound)

include hbytes

/-- An entry ends behind its offset, no farther than three numbers do. -/
theorem readEntry_bounds {kind : MemberKind} {offset : Nat} {own : UInt32 × UInt32 × Nat} {last : UInt32}
    (h : image.readAt (readEntry kind) offset = .ok (own, last)) :
    offset ≤ last.toNat ∧ last.toNat ≤ offset + 3 * Leb128.maxLength := by
  rw [extentBound] at hbytes
  obtain ⟨stop, hon, hoffset, hstop⟩ := (guarded_readEntry kind).of_at? h
  obtain ⟨own, stop, hown, hon⟩ := on_bind_eq_ok hon
  have hle := le_of_readOwn hown
  cases hon
  rw [UInt32.toNat_ofNat_of_lt' (show stop < 2 ^ 32 by omega)]
  exact ⟨hoffset, hle⟩

theorem nextValueWord_eq (values : Option (UInt32 × Nat)) :
    nextValueWord image values = .ofResult (nextValue image values) := by
  rcases values with _ | ⟨offset, _ | left⟩
  · rfl
  · rfl
  · have hnext := Image.markWord_eq hbytes Value.guarded_skip (fun _ next => next) offset.toNat
    rw [nextValueWord, hnext]
    exact Checked.ofResult_bind _ fun next _ => rfl

theorem nextHiddenWord_eq (hidden : Option UInt32) :
    nextHiddenWord image hidden = .ofResult (nextHidden image hidden) := by
  cases hidden with
  | none => rfl
  | some offset => exact Image.markWord_eq hbytes .uleb128 (fun flags next => (some flags, some next)) offset.toNat

/-- What an entry is read as fits into words. -/
theorem nextEntryWord_eq (kind : MemberKind) (cursor : MemberCursor) :
    nextEntryWord image kind cursor = .ofResult (nextEntry image kind cursor) := by
  rw [nextEntryWord, nextEntry, Image.markWord_eq hbytes (guarded_readOwn kind)]
  refine Checked.ofResult_bind _ fun own hown => ?_
  obtain ⟨⟨delta, flags, codeOffset⟩, last⟩ := own
  have hle := (readEntry_bounds hbytes hown).1
  dsimp only
  rw [nextValueWord_eq hbytes]
  refine Checked.ofResult_bind _ fun values _ => ?_
  rw [nextHiddenWord_eq hbytes]
  refine Checked.ofResult_bind _ fun hidden _ => ?_
  rw [Word.sub_eq hle, ← UInt32.toNat_sub_of_le _ _ hle]
  rfl

/-- An entry takes no more bytes than three numbers do. -/
theorem size_le_of_entriesFrom {kind : MemberKind} {count : Nat} {cursor : MemberCursor} {entry : MemberEntry}
    (h : .ok entry ∈ entriesFrom image kind count cursor) : entry.size ≤ 3 * Leb128.maxLength := by
  induction count generalizing cursor with
  | zero => cases h
  | succ count ih =>
    rw [entriesFrom] at h
    split at h
    · rename_i first next hnext
      rcases List.mem_cons.mp h with heq | hmem
      · cases heq
        obtain ⟨⟨own, last⟩, hown, hnext⟩ := Result.bind_eq_ok hnext
        obtain ⟨_, -, hnext⟩ := Result.bind_eq_ok hnext
        obtain ⟨_, -, hnext⟩ := Result.bind_eq_ok hnext
        cases hnext
        have hbounds := readEntry_bounds hbytes hown
        show (last - cursor.offset).toNat ≤ _
        rw [UInt32.toNat_sub_of_le _ _ hbounds.1]
        omega
      · exact ih hmem
    · cases List.mem_singleton.mp h

end

end StoredClass

/-! ## Bodies -/

namespace StoredCode

/-- Where the instructions of a code item end, in words of 64 bits. -/
def endWord (offset unitCount : Nat) : Option Nat := do
  Word.add 64 (← Word.add 64 offset headSize) (← Word.mul 64 2 unitCount)

/-- Where the instructions begin, in words of 32 bits. -/
def instructionsStartWord (c : StoredCode) : Option Nat :=
  Word.add 32 c.offset headSize

/-- The bytes of the instructions. -/
def codeBytesWord (c : StoredCode) : Option Bytes := do
  let start ← c.instructionsStartWord
  Word.slice c.image.bytes start (← Word.add 64 start (← Word.mul 64 2 c.unitCount))

/-- Where the try items begin, in words of 32 bits. -/
def triesStartWord (c : StoredCode) : Option Nat := do
  let last ← Word.add 32 (← c.instructionsStartWord) (← Word.mul 32 2 c.unitCount)
  Word.add 32 last (← Word.mul 32 2 (c.unitCount % 2))

/-- Where the padding in front of the try items is, in words of 64 bits. -/
def paddingWord (c : StoredCode) : Option Nat := do
  Word.sub (← c.triesStartWord) 2

/-- Where the handlers begin, in words of 32 bits. -/
def handlersStartWord (c : StoredCode) : Option Nat := do
  Word.add 32 (← c.triesStartWord) (← Word.mul 32 c.tryCount tryItemSize)

/-- Where the handlers of a try block are, in words of 32 bits. -/
def handlersWord (c : StoredCode) (handlerOffset : UInt16) : Option Nat := do
  Word.add 32 (← c.handlersStartWord) handlerOffset.toNat

/-- The number of bytes of the code item, in words of 32 bits. -/
def sizeWord (c : StoredCode) : Checked Nat :=
  if c.tryCount = 0 then .ofWord (do Word.add 32 headSize (← Word.mul 32 2 c.unitCount))
  else do
    let start ← .ofWord c.handlersStartWord
    let last ← .ofWord (Word.fit 32 (← .ofResult (c.image.readAt readPastHandlers start)))
    .ofWord (Word.sub last c.offset)

/-- The instructions of the code item lie within the bytes. -/
structure Within (c : StoredCode) : Prop where
  bytes_lt : c.image.bytes.size < extentBound
  end_le : c.offset + headSize + 2 * c.unitCount ≤ c.image.bytes.size
  tryCount_lt : c.tryCount < 2 ^ 16

theorem within_of_at? {image : Image} (hbytes : image.bytes.size < extentBound) {offset : Nat} {c : StoredCode}
    (h : StoredCode.at? image offset = .ok c) : c.image = image ∧ c.Within := by
  rw [at?_eq_read] at h
  obtain ⟨-, last, hon⟩ := exists_of_at? h
  obtain ⟨registers, _, -, hon⟩ := on_bind_eq_ok hon
  obtain ⟨_, _, -, hon⟩ := on_bind_eq_ok hon
  obtain ⟨tries, _, -, hon⟩ := on_bind_eq_ok hon
  obtain ⟨debug, _, -, hon⟩ := on_bind_eq_ok hon
  obtain ⟨units, _, -, hon⟩ := on_bind_eq_ok hon
  dsimp only at hon
  split at hon
  · cases hon
  · rename_i hend
    cases hon
    exact ⟨rfl, hbytes, Nat.not_lt.mp hend, tries.toNat_lt⟩

theorem endWord_eq {offset unitCount : Nat} (hoffset : offset < 2 ^ 32) (hunits : unitCount < 2 ^ 32) :
    endWord offset unitCount = some (offset + headSize + 2 * unitCount) := by
  simp only [endWord, headSize, Word.add_eq (show offset + 16 < 2 ^ 64 by omega),
    Word.mul_eq (show 2 * unitCount < 2 ^ 64 by omega), Option.bind_eq_bind, Option.bind_some]
  exact Word.add_eq (by omega)

section computations

variable {c : StoredCode} (h : c.Within)

include h

theorem Within.bounds : c.offset + 16 + 2 * c.unitCount < 0x80000000 :=
  Nat.lt_of_le_of_lt h.end_le h.bytes_lt

theorem instructionsStartWord_eq : c.instructionsStartWord = some c.instructionsStart := by
  have hbounds := h.bounds
  exact Word.add_eq (show c.offset + 16 < 2 ^ 32 by omega)

theorem codeBytesWord_eq : c.codeBytesWord = some c.codeBytes := by
  have hbounds := h.bounds
  have hstart : c.instructionsStart = c.offset + 16 := rfl
  rw [codeBytesWord, instructionsStartWord_eq h]
  simp only [Word.mul_eq (show 2 * c.unitCount < 2 ^ 64 by omega),
    Word.add_eq (show c.instructionsStart + 2 * c.unitCount < 2 ^ 64 by omega), Option.bind_eq_bind, Option.bind_some]
  exact Word.slice_eq (Nat.le_add_right _ _) h.end_le

theorem triesStartWord_eq : c.triesStartWord = some c.triesStart := by
  have hbounds := h.bounds
  have hstart : c.instructionsStart = c.offset + 16 := rfl
  simp only [triesStartWord, instructionsStartWord_eq h, Word.mul_eq (show 2 * c.unitCount < 2 ^ 32 by omega),
    Word.add_eq (show c.instructionsStart + 2 * c.unitCount < 2 ^ 32 by omega),
    Word.mul_eq (show 2 * (c.unitCount % 2) < 2 ^ 32 by omega), Option.bind_eq_bind, Option.bind_some]
  exact Word.add_eq (by omega)

theorem Within.triesStart_bounds : c.offset + 16 ≤ c.triesStart ∧ c.triesStart < 0x80000002 := by
  have hbounds := h.bounds
  have hstart : c.triesStart = c.offset + 16 + 2 * c.unitCount + 2 * (c.unitCount % 2) := rfl
  omega

theorem paddingWord_eq : c.paddingWord = some (c.triesStart - 2) := by
  have htries := h.triesStart_bounds
  rw [paddingWord, triesStartWord_eq h]
  exact Word.sub_eq (by omega)

theorem Within.handlersStart_bounds : c.offset + 16 ≤ c.handlersStart ∧ c.handlersStart < 0x80100000 := by
  have htries := h.triesStart_bounds
  have hcount := h.tryCount_lt
  have hstart : c.handlersStart = c.triesStart + c.tryCount * 8 := rfl
  omega

theorem handlersStartWord_eq : c.handlersStartWord = some c.handlersStart := by
  have hstart := h.handlersStart_bounds
  have hcount := h.tryCount_lt
  rw [handlersStartWord, triesStartWord_eq h]
  simp only [Word.mul_eq (show c.tryCount * tryItemSize < 2 ^ 32 by rw [tryItemSize]; omega), Option.bind_eq_bind,
    Option.bind_some]
  exact Word.add_eq (show c.handlersStart < 2 ^ 32 by omega)

theorem handlersWord_eq (handlerOffset : UInt16) :
    c.handlersWord handlerOffset = some (c.handlersStart + handlerOffset.toNat) := by
  have hstart := h.handlersStart_bounds
  have hoffset := handlerOffset.toNat_lt
  rw [handlersWord, handlersStartWord_eq h]
  exact Word.add_eq (by omega)

omit h in
theorem size_eq (c : StoredCode) : c.size =
    if c.tryCount = 0 then .ok (headSize + 2 * c.unitCount)
    else (c.image.readAt readPastHandlers c.handlersStart).map (· - c.offset) := by
  rw [size]
  split
  · rfl
  · rw [Image.readAt, ← Read.at?_map]
    simp only [readPastHandlers, bind_assoc]
    rfl

theorem sizeWord_eq : c.sizeWord = .ofResult c.size := by
  have hbounds := h.bounds
  have hstart := h.handlersStart_bounds
  have hbytes := h.bytes_lt
  rw [extentBound] at hbytes
  rw [sizeWord, size_eq]
  split
  · rw [headSize, Word.mul_eq (show 2 * c.unitCount < 2 ^ 32 by omega), Option.bind_eq_bind, Option.bind_some,
      Word.add_eq (by omega)]
    rfl
  · rw [handlersStartWord_eq h, Checked.ofWord_some, Checked.ofResult_ok_bind]
    cases hread : c.image.readAt readPastHandlers c.handlersStart with
    | error e => rfl
    | ok last =>
      obtain ⟨stop, hon, hle, hstop⟩ := guarded_readPastHandlers.of_at? hread
      obtain ⟨_, _, -, hon⟩ := on_bind_eq_ok hon
      obtain ⟨_, _, -, hon⟩ := on_bind_eq_ok hon
      cases hon
      rw [Checked.ofResult_ok_bind, Word.fit_eq (by omega), Checked.ofWord_some, Checked.ofResult_ok_bind,
        Word.sub_eq (by omega)]
      rfl

theorem Within.size_lt {size : Nat} (hsize : c.size = .ok size) : size < 0x80000000 := by
  have hbounds := h.bounds
  have hbytes := h.bytes_lt
  rw [extentBound] at hbytes
  rw [size_eq] at hsize
  split at hsize
  · cases hsize
    rw [headSize]
    omega
  · obtain ⟨last, hread, rfl⟩ := Result.map_eq_ok hsize
    obtain ⟨stop, hon, -, hstop⟩ := guarded_readPastHandlers.of_at? hread
    obtain ⟨_, _, -, hon⟩ := on_bind_eq_ok hon
    obtain ⟨_, _, -, hon⟩ := on_bind_eq_ok hon
    cases hon
    omega

end computations

end StoredCode

/-! ## Methods -/

namespace StoredMethod

/-- The number of bytes of a method, in words of 32 bits. -/
def sizeWord (m : StoredMethod) : Checked Nat := do
  let code ←
    match ← .ofResult m.code with
    | some code => code.sizeWord
    | none => pure 0
  .ofWord (do Word.add 32 (← Word.add 32 m.entrySize code) MethodId.byteSize)

theorem within_of_code {m : StoredMethod} (hbytes : m.image.bytes.size < extentBound) {c : StoredCode}
    (h : m.code = .ok (some c)) : c.Within := by
  rw [StoredMethod.code] at h
  split at h
  · cases h
  · obtain ⟨c, hat, heq⟩ := Result.map_eq_ok h
    cases heq
    exact (StoredCode.within_of_at? hbytes hat).2

theorem sizeWord_eq {m : StoredMethod} (hbytes : m.image.bytes.size < extentBound)
    (hentry : m.entrySize ≤ 3 * Leb128.maxLength) : m.sizeWord = .ofResult m.size := by
  rw [Leb128.maxLength] at hentry
  have hsum {code : Nat} (hcode : code < 0x80000000) :
      (do Word.add 32 (← Word.add 32 m.entrySize code) MethodId.byteSize) =
        some (m.entrySize + code + MethodId.byteSize) := by
    rw [Word.add_eq (by omega), Option.bind_eq_bind, Option.bind_some, MethodId.byteSize]
    exact Word.add_eq (by omega)
  rw [sizeWord, size]
  refine Checked.ofResult_bind _ fun code? hcode => ?_
  cases code? with
  | none =>
    show Checked.ofWord _ = _
    rw [hsum (by decide)]
    rfl
  | some code =>
    have hwithin := within_of_code hbytes hcode
    dsimp only
    rw [StoredCode.sizeWord_eq hwithin]
    refine Checked.ofResult_bind _ fun size hsize => ?_
    rw [hsum (hwithin.size_lt hsize)]
    rfl

/-- What is kept of an offset in 32 bits is the offset if it fits. -/
theorem mod_eq_iff (offset : Nat) : offset % bitBound 32 = offset ↔ Word.fit 32 offset = some offset := by
  rw [Word.fit, show bitBound 32 = 2 ^ 32 from rfl]
  constructor
  · intro h
    rw [if_pos (h ▸ Nat.mod_lt _ (by decide))]
  · intro h
    split at h
    · exact Nat.mod_eq_of_lt ‹_›
    · cases h

/-- The offset of the identifier of a method is kept if it fits into 32 bits, and only
then. -/
theorem idOffset_eq_iff {m : StoredMethod} {offset : Nat} (h : m.image.methodIdOffset m.index = .ok offset) :
    m.idOffset = .ok offset ↔ Word.fit 32 offset = some offset := by
  rw [idOffset, h, ← mod_eq_iff]
  exact Iff.of_eq (Except.ok.injEq _ _)

/-- The offset of the prototype of a method is kept if it fits into 32 bits, and only
then. -/
theorem protoOffset_eq_iff {m : StoredMethod} {id offset : Nat} {proto : UInt16} (hid : m.idOffset = .ok id)
    (hproto : m.image.readAt Read.ushort (id + 2) = .ok proto)
    (h : m.image.protoIdOffset (UInt32.ofNat proto.toNat) = .ok offset) :
    m.protoOffset = .ok offset ↔ Word.fit 32 offset = some offset := by
  rw [protoOffset, hid, Result.ok_bind, hproto, Result.ok_bind, h, ← mod_eq_iff]
  exact Iff.of_eq (Except.ok.injEq _ _)

end StoredMethod

/-! ## Opening -/

theorem Read.forall_of_listFrom {α : Type} {context : Nat → Context} {step : Read α} {P : α → Prop}
    (hstep : ∀ bytes offset a next, step.on bytes offset = (.ok a, next) → P a) {index count : Nat} {bytes : Bytes}
    {offset next : Nat} {as : List α} (h : (Read.listFrom context step index count).on bytes offset = (.ok as, next)) :
    ∀ a ∈ as, P a := by
  induction count generalizing index offset as next with
  | zero =>
    cases h
    exact fun _ ha => nomatch ha
  | succ count ih =>
    obtain ⟨first, middle, hfirst, h⟩ := on_bind_eq_ok h
    obtain ⟨rest, last, hrest, h⟩ := on_bind_eq_ok h
    cases h
    rw [on_within, Prod.mk.injEq] at hfirst
    exact List.forall_mem_cons.mpr ⟨hstep _ _ _ _ (Prod.ext (Result.within_eq_ok hfirst.1) rfl), ih hrest⟩

namespace Image

/-- The sections of a map that has been read begin at small offsets. -/
theorem offset_lt_of_map {bytes : Bytes} {offset : Nat} {map : MapList}
    (h : (Layout.read : Read MapList).at? bytes offset = .ok map) :
    ∀ item ∈ map.items, item.offset.toNat < extentBound := by
  obtain ⟨-, last, hon⟩ := exists_of_at? h
  obtain ⟨count, _, -, hon⟩ := on_bind_eq_ok hon
  obtain ⟨items, _, hitems, hon⟩ := on_bind_eq_ok hon
  cases hon
  obtain ⟨left, _, -, hitems⟩ := on_bind_eq_ok hitems
  split at hitems
  · cases hitems
  · refine Read.forall_of_listFrom (fun bytes offset item next hread => ?_) hitems
    obtain ⟨type, _, -, hread⟩ := on_bind_eq_ok hread
    obtain ⟨_, _, -, hread⟩ := on_bind_eq_ok hread
    obtain ⟨size, _, -, hread⟩ := on_bind_eq_ok hread
    obtain ⟨start, _, hstart, hread⟩ := on_bind_eq_ok hread
    cases hread
    exact Read.smallUint_lt hstart

theorem Within.noteSection {image : Image} (h : image.Within) {item : MapItem}
    (hitem : item.offset.toNat < extentBound) : (image.noteSection item).Within := by
  unfold Image.noteSection
  split
  · exact ⟨h.bytes_lt, h.hiddenApi_lt⟩
  · split
    · exact ⟨h.bytes_lt, h.hiddenApi_lt⟩
    · split
      · exact ⟨h.bytes_lt, fun start hstart => Option.some.inj hstart ▸ hitem⟩
      · exact h

theorem Within.noteSections {image : Image} (h : image.Within) {items : List MapItem}
    (hitems : ∀ item ∈ items, item.offset.toNat < extentBound) : (items.foldl Image.noteSection image).Within := by
  induction items generalizing image with
  | nil => exact h
  | cons item items ih =>
    obtain ⟨hitem, hitems⟩ := List.forall_mem_cons.mp hitems
    exact ih (h.noteSection hitem) hitems

theorem within_of_ofBytes {bytes : Bytes} {image : Image} (h : Image.ofBytes bytes = .ok image)
    (hsize : bytes.size < extentBound) : image.Within := by
  obtain ⟨header, -, h⟩ := Result.bind_eq_ok h
  obtain ⟨version, -, h⟩ := Result.bind_eq_ok h
  obtain ⟨opcodes, -, h⟩ := Result.bind_eq_ok h
  have hfresh : Within { bytes, header, opcodes } := ⟨hsize, fun _ hstart => nomatch hstart⟩
  unfold ofHeader at h
  by_cases hlarge : header.fileSize.toNat > bytes.size
  · rw [if_pos hlarge] at h
    cases h
  · rw [if_neg hlarge] at h
    dsimp only [Result.ok_bind] at h
    split at h
    · cases h
      exact hfresh
    · obtain ⟨_, -, h⟩ := Result.bind_eq_ok h
      obtain ⟨map, hmap, h⟩ := Result.bind_eq_ok h
      cases h
      exact hfresh.noteSections (offset_lt_of_map (Result.within_eq_ok hmap))

end Image

end Dalvik
