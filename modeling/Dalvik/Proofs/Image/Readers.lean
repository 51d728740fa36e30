import Dalvik.Proofs.Image.Cursors

/-!
# The readers of an image are guarded

Every step that an image is read by is made of guarded steps, and so it is guarded
itself. Steps that have no name where an image is read get one here.
-/

namespace Dalvik

open Read

/-! ## Layouts -/

namespace Layout

theorem guarded_readItems {α : Type} [Layout α] (h : Guarded (read : Read α)) (count : Nat) :
    Guarded (readItems α count) := by
  refine Guarded.remaining.bind fun left => ?_
  split
  · exact .fail _
  · exact h.listFrom _ _ _

theorem guarded_sizedList {α : Type} [Layout α] (h : Guarded (read : Read α)) : Guarded (read : Read (SizedList α)) :=
  Guarded.smallUint.bind fun count => (guarded_readItems h count.toNat).map _

theorem guarded_section : Guarded (read : Read Section) :=
  Guarded.uint.bind fun _ => Guarded.uint.map _

theorem guarded_mapItem : Guarded (read : Read MapItem) :=
  Guarded.ushort.bind fun _ => (Guarded.skip 2).bind fun _ => Guarded.smallUint.bind fun _ =>
    Guarded.smallUint.map _

theorem guarded_mapList : Guarded (read : Read MapList) :=
  guarded_sizedList guarded_mapItem

theorem guarded_typeList : Guarded (read : Read TypeList) :=
  guarded_sizedList (Guarded.ushort.map _)

theorem guarded_fieldId : Guarded (read : Read FieldId) :=
  Guarded.ushort.bind fun _ => Guarded.ushort.bind fun _ => Guarded.smallUint.map _

theorem guarded_methodId : Guarded (read : Read MethodId) :=
  Guarded.ushort.bind fun _ => Guarded.ushort.bind fun _ => Guarded.smallUint.map _

theorem guarded_protoId : Guarded (read : Read ProtoId) :=
  Guarded.smallUint.bind fun _ => Guarded.smallUint.bind fun _ => Guarded.smallUint.map _

theorem guarded_methodHandleId : Guarded (read : Read MethodHandleId) :=
  Guarded.ushort.bind fun _ => (Guarded.skip 2).bind fun _ => Guarded.ushort.bind fun _ =>
    (Guarded.skip 2).map _

theorem guarded_classDefItem : Guarded (read : Read ClassDefItem) :=
  Guarded.uint.bind fun _ => Guarded.uint.bind fun _ => Guarded.uint.bind fun _ => Guarded.uint.bind fun _ =>
    Guarded.uint.bind fun _ => Guarded.uint.bind fun _ => Guarded.uint.bind fun _ => Guarded.uint.map _

end Layout

theorem Header.guarded_read : Guarded Header.read := by
  unfold Header.read
  refine Guarded.remaining.bind fun left => ?_
  split
  · exact .fail_bind _ _
  · refine (Guarded.take 8 _).bind fun magic => ?_
    split
    · exact .fail_bind _ _
    · refine Guarded.uint.bind fun _ => (Guarded.take 20 _).bind fun _ => Guarded.uint.bind fun _ =>
        Guarded.uint.bind fun _ => Guarded.uint.bind fun _ => Layout.guarded_section.bind fun _ =>
        Guarded.uint.bind fun _ => Layout.guarded_section.bind fun _ => Layout.guarded_section.bind fun _ =>
        Layout.guarded_section.bind fun _ => Layout.guarded_section.bind fun _ => Layout.guarded_section.bind fun _ =>
        Layout.guarded_section.bind fun _ => Layout.guarded_section.bind fun _ => ?_
      dsimp only
      split
      · exact .fail_bind _ _
      · split
        · exact .fail_bind _ _
        · split
          · exact .fail_bind _ _
          · exact .pure _

/-! ## Values -/

namespace Value

variable (r : ValueResolver)

theorem guarded_readIndexed {α : Type} (find : UInt32 → Result α) (size : Nat) : Guarded (readIndexed find size) :=
  (Guarded.sizedUnsigned size).bind fun _ => .ofResult _

theorem guarded_checkSize (tag argument start most : Nat) : Guarded (checkSize tag argument start most) := by
  unfold checkSize
  split
  · exact .fail _
  · exact .pure ()

theorem guarded_checkNoArgument (tag argument start : Nat) : Guarded (checkNoArgument tag argument start) := by
  unfold checkNoArgument
  split
  · exact .fail _
  · exact .pure ()

section inside

variable {one : Read Value} (h : Guarded one)

include h

theorem guarded_readArray : Guarded (readArray one) :=
  Guarded.smallUleb128.bind fun count => h.listFrom _ 0 count.toNat

theorem guarded_readElements : Guarded (readElements r one) := by
  refine Guarded.smallUleb128.bind fun count => Guarded.times ?_ count.toNat
  exact Guarded.smallUleb128.bind fun i => (Guarded.ofResult (r.string i)).bind fun _ => h.map _

theorem guarded_readBody : Guarded (readBody r one) :=
  Guarded.smallUleb128.bind fun i => (Guarded.ofResult (r.type i)).bind fun _ => (guarded_readElements r h).map _

/-- What follows a head is guarded if the values inside are. -/
theorem guarded_readContent (tag argument start : Nat) : Guarded (readContent r one tag argument start) := by
  have hsize := guarded_checkSize tag argument start
  have hargument := guarded_checkNoArgument tag argument start
  unfold readContent
  dsimp only
  split
  case h_1 => exact (hsize _).bind fun _ => Guarded.byte.map _
  case h_2 | h_4 | h_5 => exact (hsize _).bind fun _ => (Guarded.sizedSigned _).map _
  case h_3 => exact (hsize _).bind fun _ => (Guarded.sizedUnsigned _).map _
  case h_6 | h_7 => exact (hsize _).bind fun _ => (Guarded.sizedRight _ _).map _
  case h_8 | h_9 | h_10 | h_11 | h_12 | h_13 | h_14 => exact (hsize _).bind fun _ => (guarded_readIndexed _ _).map _
  case h_15 => exact hargument.bind fun _ => (guarded_readArray h).map _
  case h_16 => exact hargument.bind fun _ => (guarded_readBody r h).map _
  case h_17 => exact hargument.map _
  case h_18 =>
    split
    · exact (Guarded.fail _).bind fun _ => .pure _
    · exact .pure _
  case h_19 => exact .fail _

end inside

theorem guarded_decodeWithin (depth : Nat) : Guarded (decodeWithin r depth) := by
  induction depth with
  | zero => exact Guarded.tell.bind fun _ => .fail _
  | succ depth ih => exact Guarded.tell.bind fun start => Guarded.ubyte.bind fun head => guarded_readContent r ih _ _ _

theorem guarded_decode : Guarded (decode r) :=
  Guarded.remaining.bind fun _ => guarded_decodeWithin r _

theorem guarded_decodeArray : Guarded (decodeArray r) :=
  Guarded.remaining.bind fun _ => guarded_readArray (guarded_decodeWithin r _)

theorem guarded_decodeElements : Guarded (decodeElements r) :=
  Guarded.remaining.bind fun _ => guarded_readElements r (guarded_decodeWithin r _)

theorem guarded_skipContent {one : Read Unit} (h : Guarded one) (tag argument : Nat) :
    Guarded (skipContent one tag argument) := by
  unfold skipContent
  split
  · exact Guarded.smallUleb128.bind fun _ => h.repeated _
  · split
    · exact Guarded.uleb128.discard.bind fun _ => Guarded.smallUleb128.bind fun _ =>
        (Guarded.uleb128.discard.bind fun _ => h).repeated _
    · split
      · exact .pure ()
      · split
        · exact .skip _
        · exact .fail _

theorem guarded_skipWithin (depth : Nat) : Guarded (skipWithin depth) := by
  induction depth with
  | zero => exact Guarded.tell.bind fun _ => .fail _
  | succ depth ih => exact Guarded.ubyte.bind fun _ => guarded_skipContent ih _ _

theorem guarded_skip : Guarded Value.skip :=
  Guarded.remaining.bind fun _ => guarded_skipWithin _

end Value

/-! ## Instructions -/

namespace Operands

theorem guarded_readShort : Guarded readShort :=
  Guarded.short.map _

theorem guarded_readIndex : Guarded readIndex :=
  Guarded.ushort.map _

theorem guarded_readArray (start : Nat) : Guarded (readArray start) := by
  unfold readArray
  refine Guarded.ushort.bind fun width => Guarded.uint.bind fun count => ?_
  dsimp only
  split
  · exact .fail_bind _ _
  · refine Guarded.remaining.bind fun left => ?_
    split
    · exact .fail_bind _ _
    · refine ((Guarded.sizedSigned _).times _).bind fun elements => ?_
      split
      · exact (Guarded.skip 1).map _
      · exact .pure _

theorem guarded_readList (op : Opcode) (start high : Nat) : Guarded (read.readList op start high) := by
  unfold read.readList
  split
  · exact .fail_bind _ _
  · exact Guarded.ushort.bind fun _ => Guarded.ushort.map _

theorem guarded_read (op : Opcode) (start high : Nat) : Guarded (Operands.read op start high) := by
  unfold Operands.read
  cases op.format with
  | f20bc =>
    dsimp only
    cases ReferenceKind.ofVerificationBits (high / 0x40) with
    | error e => exact .throw e
    | ok kind => exact guarded_readIndex.map _
  | f10t | f10x | f11n | f11x | f12x => exact .pure _
  | f20t | f21s | f21t | f22s | f22t => exact guarded_readShort.map _
  | f21c | f22c => exact guarded_readIndex.map _
  | f21ih | f21lh => exact Guarded.short.map _
  | f22b | f22cs | f22x | f23x => exact Guarded.ushort.map _
  | f30t | f31i | f31t => exact Guarded.int.map _
  | f31c => exact Guarded.uint.map _
  | f32x => exact Guarded.ushort.bind fun _ => Guarded.ushort.map _
  | f51l => exact Guarded.long.map _
  | f35c | f35mi | f35ms => exact (guarded_readList op start high).map _
  | f45cc => exact (guarded_readList op start high).bind fun _ => guarded_readIndex.map _
  | f3rc => exact guarded_readIndex.bind fun _ => Guarded.ushort.map _
  | f3rmi | f3rms => exact Guarded.ushort.bind fun _ => Guarded.ushort.map _
  | f4rcc => exact guarded_readIndex.bind fun _ => Guarded.ushort.bind fun _ => guarded_readIndex.map _
  | packedSwitch => exact Guarded.ushort.bind fun _ => Guarded.int.bind fun _ => (Guarded.int.times _).map _
  | sparseSwitch => exact Guarded.ushort.bind fun _ => (Guarded.int.times _).bind fun _ => (Guarded.int.times _).map _
  | arrayData => exact guarded_readArray start

end Operands

theorem Instruction.guarded_decode (opcodes : Opcodes) : Guarded (Instruction.decode opcodes) := by
  refine Guarded.tell.bind fun start => Guarded.ushort.bind fun unit => ?_
  dsimp only
  split
  · exact .fail _
  · exact (Operands.guarded_read _ _ _).map _

/-! ## Annotations -/

/-- Reads the head of an annotation. -/
def Image.readAnnotationHead (image : Image) : Read StoredAnnotationItem := do
  let visibility ← Read.ofResult (Visibility.ofCode (← Read.ubyte).toNat)
  let typeIndex ← Read.smallUleb128
  return { image, visibility, typeIndex, elementsOffset := ← Read.tell }

/-- Reads a list of offsets of sets of annotations. -/
def Image.readSetRefs : Read (List Nat) := do
  let count := (← Read.smallUint).toNat
  return (← Read.times Read.smallUint count).map UInt32.toNat

/-- Reads the head of an annotations directory. -/
def StoredDirectory.readHead (image : Image) (offset : Nat) : Read StoredDirectory := do
  Read.skip 4
  let fieldCount := (← Read.smallUint).toNat
  let methodCount := (← Read.smallUint).toNat
  let parameterCount := (← Read.smallUint).toNat
  let count := fieldCount + methodCount + parameterCount
  if count * entrySize > (← Read.remaining) then Read.fail (.directoryTooLarge offset count)
  return { image, offset, fieldCount, methodCount, parameterCount }

namespace Image

variable (image : Image) (offset : Nat)

theorem guarded_readAnnotationHead : Guarded image.readAnnotationHead :=
  Guarded.ubyte.bind fun _ => (Guarded.ofResult _).bind fun _ => Guarded.smallUleb128.bind fun _ => Guarded.tell.map _

theorem guarded_readSetRefs : Guarded readSetRefs :=
  Guarded.smallUint.bind fun _ => (Guarded.smallUint.times _).map _

end Image

namespace StoredDirectory

variable (image : Image) (offset : Nat)

theorem guarded_readHead : Guarded (readHead image offset) := by
  unfold readHead
  refine (Guarded.skip 4).bind fun _ => Guarded.smallUint.bind fun _ => Guarded.smallUint.bind fun _ =>
    Guarded.smallUint.bind fun _ => Guarded.remaining.bind fun _ => ?_
  split
  · exact .fail_bind _ _
  · exact .pure _

end StoredDirectory

/-! ## Classes -/

namespace StoredClass

/-- Steps over some LEB128 numbers. -/
def readBeyond (count : Nat) : Read UInt32 := do
  Read.repeated (discard Read.uleb128) count
  Read.mark

/-- Reads the number of the initial values of static fields. -/
def readStaticValues : Read (Option (UInt32 × Nat)) := do
  let count := (← Read.smallUleb128).toNat
  return some (← Read.mark, count)

/-- Steps over an initial value. -/
def readPast : Read UInt32 := do
  Value.skip
  Read.mark

/-- Reads the hidden API flags of a member. -/
def readHidden : Read (Option UInt32 × Option UInt32) := do
  let flags ← Read.uleb128
  return (some flags, some (← Read.mark))

theorem guarded_readCounts (c : StoredClass) (offset : Nat) : Guarded (c.readCounts offset) := by
  unfold readCounts
  refine Guarded.smallUleb128.bind fun _ => Guarded.smallUleb128.bind fun _ => Guarded.smallUleb128.bind fun _ =>
    Guarded.smallUleb128.bind fun _ => Guarded.remaining.bind fun _ => ?_
  split
  · exact .fail_bind _ _
  · exact .pure _

theorem guarded_readSizes (c : StoredClass) (offset : Nat) : Guarded (c.readSizes offset) :=
  (c.guarded_readCounts offset).bind fun _ => Guarded.mark.map _

theorem guarded_readBeyond (count : Nat) : Guarded (readBeyond count) :=
  (Guarded.uleb128.discard.repeated count).bind fun _ => .mark

theorem guarded_readStaticValues : Guarded readStaticValues :=
  Guarded.smallUleb128.bind fun _ => Guarded.mark.map _

theorem guarded_readPast : Guarded readPast :=
  Value.guarded_skip.bind fun _ => .mark

theorem guarded_readHidden : Guarded readHidden :=
  Guarded.uleb128.bind fun _ => Guarded.mark.map _

theorem guarded_readOwn (kind : MemberKind) : Guarded (readOwn kind) := by
  unfold readOwn
  refine Guarded.uleb128.bind fun _ => Guarded.smallUleb128.bind fun _ => ?_
  split
  · rw [map_eq_pure_bind]
    exact (Guarded.smallUleb128.map _).map _
  · exact (Guarded.pure 0).map _

theorem guarded_readEntry (kind : MemberKind) : Guarded (readEntry kind) :=
  (guarded_readOwn kind).bind fun _ => Guarded.mark.map _

end StoredClass

/-! ## Bodies -/

namespace StoredCode

/-- Reads the head of a code item. -/
def readHead (image : Image) (offset : Nat) : Read StoredCode := do
  let registers ← Read.ushort
  Read.skip 4
  let tryCount := (← Read.ushort).toNat
  let debugOffset := (← Read.smallUint).toNat
  let unitCount := (← Read.smallUint).toNat
  if offset + headSize + 2 * unitCount > image.bytes.size then Read.fail (.codePastEnd offset)
  return { image, offset, registers, tryCount, debugOffset, unitCount }

/-- Steps over all handlers. -/
def readPastHandlers : Read Nat := do
  let count := (← Read.smallUleb128).toNat
  Read.repeated skipHandlers count
  Read.tell

/-- Reads the names of the parameters. -/
def readNames (image : Image) : Read (List (Option String)) := do
  discard Read.uleb128
  let count := (← Read.smallUleb128).toNat
  Read.times (readString? image) count

/-- Reads the head of debug information. -/
def readDebugHead : Read (UInt32 × Nat) := do
  let line ← Read.smallUleb128
  let count := (← Read.smallUleb128).toNat
  Read.repeated (discard Read.uleb128) count
  return (line, ← Read.tell)

theorem at?_eq_read (image : Image) (offset : Nat) :
    StoredCode.at? image offset = image.readAt (readHead image offset) offset := rfl

theorem guarded_readHead (image : Image) (offset : Nat) : Guarded (readHead image offset) := by
  unfold readHead
  refine Guarded.ushort.bind fun _ => (Guarded.skip 4).bind fun _ => Guarded.ushort.bind fun _ =>
    Guarded.smallUint.bind fun _ => Guarded.smallUint.bind fun _ => ?_
  dsimp only
  split
  · exact .fail_bind _ _
  · exact .pure _

theorem guarded_readInstruction (c : StoredCode) : Guarded c.readInstruction :=
  Guarded.tell.bind fun _ =>
    ((Instruction.guarded_decode _).bind fun _ => Guarded.ofResult _).within _

theorem guarded_skipHandlers : Guarded skipHandlers := by
  unfold skipHandlers
  refine Guarded.sleb128.bind fun size => ?_
  refine ((Guarded.uleb128.discard.bind fun _ => Guarded.uleb128.discard).repeated _).bind fun _ => ?_
  split
  · exact Guarded.uleb128.discard
  · exact .pure ()

theorem guarded_readPastHandlers : Guarded readPastHandlers :=
  Guarded.smallUleb128.bind fun _ => (guarded_skipHandlers.repeated _).bind fun _ => .tell

variable (image : Image)

theorem guarded_readTyped : Guarded (readTyped image) :=
  Guarded.smallUleb128.bind fun _ => (Guarded.ofResult _).bind fun _ => Guarded.smallUleb128.map _

theorem guarded_readHandlers : Guarded (readHandlers image) := by
  unfold readHandlers
  refine Guarded.sleb128.bind fun size => ((guarded_readTyped image).times _).bind fun typed => ?_
  split
  · exact Guarded.smallUleb128.map _
  · exact .pure _

theorem guarded_readTry (c : StoredCode) (index : Nat) : Guarded (c.readTry index) :=
  Guarded.smallUint.bind fun _ => Guarded.ushort.bind fun _ => Guarded.ushort.bind fun _ => (Guarded.ofResult _).map _

theorem guarded_readTries (c : StoredCode) (index count : Nat) : Guarded (c.readTries index count) := by
  induction count generalizing index with
  | zero => exact .pure []
  | succ count ih => exact (guarded_readTry c index).bind fun _ => (ih (index + 1)).map _

theorem guarded_readString? : Guarded (readString? image) :=
  Guarded.uleb128p1.bind fun _ => .ofResult _

theorem guarded_readType? : Guarded (readType? image) :=
  Guarded.uleb128p1.bind fun _ => .ofResult _

theorem guarded_readNames : Guarded (readNames image) :=
  Guarded.uleb128.discard.bind fun _ => Guarded.smallUleb128.bind fun _ => (guarded_readString? image).times _

theorem guarded_readDebugHead : Guarded readDebugHead :=
  Guarded.smallUleb128.bind fun _ => Guarded.smallUleb128.bind fun _ =>
    (Guarded.uleb128.discard.repeated _).bind fun _ => Guarded.tell.map _

theorem guarded_readDebug (state : DebugState) : Guarded (readDebug image state) := by
  have hstring := guarded_readString? image
  have htype := guarded_readType? image
  refine Guarded.ubyte.bind fun op => ?_
  dsimp only
  split
  · exact .pure _
  · exact Guarded.smallUleb128.map _
  · exact Guarded.sleb128.map _
  · exact Guarded.smallUleb128.bind fun _ => hstring.bind fun _ => htype.map _
  · exact Guarded.smallUleb128.bind fun _ => hstring.bind fun _ => htype.bind fun _ => hstring.map _
  · exact Guarded.smallUleb128.map _
  · exact Guarded.smallUleb128.map _
  · exact .pure _
  · exact .pure _
  · exact hstring.map _
  · exact .pure _

end StoredCode

end Dalvik
