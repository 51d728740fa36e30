import Dalvik.Proofs.Image.Overflow

/-!
# The views of an image fit into machine words

Whatever bytes an image is opened from, as long as they are fewer than 2³¹: no step that
reads it leaves the bytes, and all that its views compute with offsets and sizes fits into
words and is what the views are defined by. The one exception are the offsets of its
identifier and of its prototype that a method keeps in 32 bits: bits beyond them are lost.
-/

namespace Dalvik

open Read

/-- The steps by which an image is read. -/
inductive Image.Reads (image : Image) : {α : Type} → Read α → Prop
  | ushort : Reads image Read.ushort
  | uint : Reads image Read.uint
  | smallUint : Reads image Read.smallUint
  | string : Reads image Read.stringData
  | header : Reads image Header.read
  | map : Reads image (Layout.read : Read MapList)
  | typeList : Reads image (Layout.read : Read TypeList)
  | fieldId : Reads image (Layout.read : Read FieldId)
  | methodId : Reads image (Layout.read : Read MethodId)
  | protoId : Reads image (Layout.read : Read ProtoId)
  | methodHandle : Reads image (Layout.read : Read MethodHandleId)
  | classDef : Reads image (Layout.read : Read ClassDefItem)
  | value : Reads image (Value.decode image.valueResolver)
  | values : Reads image (Value.decodeArray image.valueResolver)
  | elements : Reads image (Value.decodeElements image.valueResolver)
  | annotation : Reads image image.readAnnotationHead
  | setRefs : Reads image Image.readSetRefs
  | directory (offset : Nat) : Reads image (StoredDirectory.readHead image offset)
  | sizes (c : StoredClass) (offset : Nat) : Reads image (c.readSizes offset)
  | beyond (count : Nat) : Reads image (StoredClass.readBeyond count)
  | staticValues : Reads image StoredClass.readStaticValues
  | entry (kind : MemberKind) : Reads image (StoredClass.readEntry kind)
  | past : Reads image StoredClass.readPast
  | hidden : Reads image StoredClass.readHidden
  | code (offset : Nat) : Reads image (StoredCode.readHead image offset)
  | instruction (c : StoredCode) : Reads image c.readInstruction
  | pastHandlers : Reads image StoredCode.readPastHandlers
  | handlers : Reads image (StoredCode.readHandlers image)
  | tries (c : StoredCode) (count : Nat) : Reads image (c.readTries 0 count)
  | names : Reads image (StoredCode.readNames image)
  | debugHead : Reads image StoredCode.readDebugHead
  | debug (state : DebugState) : Reads image (StoredCode.readDebug image state)

theorem Image.Reads.guarded {image : Image} {α : Type} {step : Read α} (h : image.Reads step) : Guarded step := by
  cases h with
  | ushort => exact .ushort
  | uint => exact .uint
  | smallUint => exact .smallUint
  | string => exact .stringData
  | header => exact Header.guarded_read
  | map => exact Layout.guarded_mapList
  | typeList => exact Layout.guarded_typeList
  | fieldId => exact Layout.guarded_fieldId
  | methodId => exact Layout.guarded_methodId
  | protoId => exact Layout.guarded_protoId
  | methodHandle => exact Layout.guarded_methodHandleId
  | classDef => exact Layout.guarded_classDefItem
  | value => exact Value.guarded_decode _
  | values => exact Value.guarded_decodeArray _
  | elements => exact Value.guarded_decodeElements _
  | annotation => exact Image.guarded_readAnnotationHead image
  | setRefs => exact Image.guarded_readSetRefs
  | directory offset => exact StoredDirectory.guarded_readHead image offset
  | sizes c offset => exact c.guarded_readSizes offset
  | beyond count => exact StoredClass.guarded_readBeyond count
  | staticValues => exact StoredClass.guarded_readStaticValues
  | entry kind => exact StoredClass.guarded_readEntry kind
  | past => exact StoredClass.guarded_readPast
  | hidden => exact StoredClass.guarded_readHidden
  | code offset => exact StoredCode.guarded_readHead image offset
  | instruction c => exact c.guarded_readInstruction
  | pastHandlers => exact StoredCode.guarded_readPastHandlers
  | handlers => exact StoredCode.guarded_readHandlers image
  | tries c count => exact c.guarded_readTries 0 count
  | names => exact StoredCode.guarded_readNames image
  | debugHead => exact StoredCode.guarded_readDebugHead
  | debug state => exact StoredCode.guarded_readDebug image state

/-! ## Parts of single steps -/

/-- The registers of a list are a slice of the five that an instruction has room for. -/
theorem Operands.length_of_readList {op : Opcode} {start high offset next : Nat} {bytes : Bytes} {index : UInt16}
    {registers : List UInt16} (h : (Operands.read.readList op start high).on bytes offset = (.ok (index, registers), next)) :
    high / 0x10 ≤ 5 ∧ registers.length = high / 0x10 := by
  unfold Operands.read.readList at h
  split at h
  · cases h
  · rename_i hcount
    obtain ⟨_, _, -, h⟩ := on_bind_eq_ok h
    obtain ⟨four, _, -, h⟩ := on_bind_eq_ok h
    cases h
    refine ⟨Nat.not_lt.mp hcount, ?_⟩
    rw [listRegisters, List.length_map, List.length_take]
    exact Nat.min_eq_left (Nat.not_lt.mp hcount)

/-- A line comes from an operation that holds both steps: no smaller one is taken for
it. -/
theorem StoredCode.special_of_readDebug {image : Image} {state after : DebugState} {bytes : Bytes}
    {offset next : Nat} {address line : UInt32}
    (h : (readDebug image state).on bytes offset = (.ok (.emit ⟨address, .line line⟩ after), next)) :
    ∃ op : UInt8, ∃ adjusted, Read.ubyte.on bytes offset = (.ok op, next) ∧
      Word.sub op.toNat DebugState.firstSpecial = some adjusted ∧
      address = state.address + UInt32.ofNat (adjusted / DebugState.lineRange) := by
  obtain ⟨op, middle, hop, h⟩ := on_bind_eq_ok h
  dsimp only at h
  split at h
  case h_11 h0 h1 h2 h3 h4 h5 h6 h7 h8 h9 =>
    cases h
    refine ⟨op, _, hop, Word.sub_eq ?_, rfl⟩
    simp only [imp_false] at h0 h1 h2 h3 h4 h5 h6 h7 h8 h9
    rw [DebugState.firstSpecial]
    omega
  case h_1 | h_8 | h_9 => cases h
  case h_2 | h_3 | h_6 | h_7 | h_10 =>
    obtain ⟨_, _, -, h⟩ := on_bind_eq_ok h
    cases h
  case h_4 =>
    obtain ⟨_, _, -, h⟩ := on_bind_eq_ok h
    obtain ⟨_, _, -, h⟩ := on_bind_eq_ok h
    obtain ⟨_, _, -, h⟩ := on_bind_eq_ok h
    cases h
  case h_5 =>
    obtain ⟨_, _, -, h⟩ := on_bind_eq_ok h
    obtain ⟨_, _, -, h⟩ := on_bind_eq_ok h
    obtain ⟨_, _, -, h⟩ := on_bind_eq_ok h
    obtain ⟨_, _, -, h⟩ := on_bind_eq_ok h
    cases h

/-! ## Views -/

/-- What is computed for an annotations directory fits into words. -/
structure StoredDirectory.Fits (d : StoredDirectory) : Prop where
  field : ∀ index, d.fieldOffsetWord index = .ofResult (d.fieldOffset index)
  method : ∀ index, d.methodOffsetWord index = .ofResult (d.methodOffset index)
  parameter : ∀ index, d.parameterOffsetWord index = .ofResult (d.parameterOffset index)

theorem StoredDirectory.Within.fits {d : StoredDirectory} (h : d.Within) (hbytes : d.image.bytes.size < extentBound) :
    d.Fits where
  field := fieldOffsetWord_eq h hbytes
  method := methodOffsetWord_eq h hbytes
  parameter := parameterOffsetWord_eq h hbytes

/-- What is computed for a code item fits into words. -/
structure StoredCode.Fits (c : StoredCode) : Prop where
  instructionsStart : c.instructionsStartWord = some c.instructionsStart
  codeBytes : c.codeBytesWord = some c.codeBytes
  triesStart : c.triesStartWord = some c.triesStart
  padding : c.paddingWord = some (c.triesStart - 2)
  handlersStart : c.handlersStartWord = some c.handlersStart
  handlers : ∀ handlerOffset, c.handlersWord handlerOffset = some (c.handlersStart + handlerOffset.toNat)
  size : c.sizeWord = .ofResult c.size

theorem StoredCode.Within.fits {c : StoredCode} (h : c.Within) : c.Fits where
  instructionsStart := instructionsStartWord_eq h
  codeBytes := codeBytesWord_eq h
  triesStart := triesStartWord_eq h
  padding := paddingWord_eq h
  handlersStart := handlersStartWord_eq h
  handlers := handlersWord_eq h
  size := sizeWord_eq h

/-- What is computed for a method fits into words, but for the offsets that it keeps. Those
are kept if they fit, and only then. -/
structure StoredMethod.Fits (m : StoredMethod) : Prop where
  code : ∀ c, m.code = .ok (some c) → c.Fits
  size : m.sizeWord = .ofResult m.size
  idOffset : ∀ offset, m.image.methodIdOffset m.index = .ok offset →
    (m.idOffset = .ok offset ↔ Word.fit 32 offset = some offset)
  protoOffset : ∀ id proto offset, m.idOffset = .ok id → m.image.readAt Read.ushort (id + 2) = .ok proto →
    m.image.protoIdOffset (UInt32.ofNat proto.toNat) = .ok offset →
    (m.protoOffset = .ok offset ↔ Word.fit 32 offset = some offset)
  /-- The parts of an identifier or a prototype are at most 8 bytes behind its offset. -/
  parts : ∀ offset, m.idOffset = .ok offset ∨ m.protoOffset = .ok offset → ∀ distance ≤ 8,
    Word.add 64 offset distance = some (offset + distance)

namespace StoredMethod

theorem idOffset_lt {m : StoredMethod} {offset : Nat} (h : m.idOffset = .ok offset) : offset < 2 ^ 32 := by
  obtain ⟨_, -, rfl⟩ := Result.map_eq_ok h
  exact Nat.mod_lt _ (by decide)

theorem protoOffset_lt {m : StoredMethod} {offset : Nat} (h : m.protoOffset = .ok offset) : offset < 2 ^ 32 := by
  obtain ⟨_, -, h⟩ := Result.bind_eq_ok h
  obtain ⟨_, -, h⟩ := Result.bind_eq_ok h
  obtain ⟨_, -, h⟩ := Result.bind_eq_ok h
  cases h
  exact Nat.mod_lt _ (by decide)

theorem fits {m : StoredMethod} (hbytes : m.image.bytes.size < extentBound)
    (hentry : m.entrySize ≤ 3 * Leb128.maxLength) : m.Fits where
  code c h := (within_of_code hbytes h).fits
  size := sizeWord_eq hbytes hentry
  idOffset offset h := idOffset_eq_iff h
  protoOffset id proto offset hid hproto h := protoOffset_eq_iff hid hproto h
  parts offset h distance hdistance := by
    have hlt := h.elim idOffset_lt protoOffset_lt
    exact Word.add_eq (by omega)

end StoredMethod

/-- What is computed for a class fits into words, and so does what is computed for its
methods. -/
structure StoredClass.Fits (c : StoredClass) : Prop where
  listStart : ∀ kind, c.listStartWord kind = .ofResult (c.listStart kind)
  preceding : ∀ kind, c.precedingWord kind = some (c.preceding kind)
  hiddenStart : c.hiddenStartWord = .ofResult c.hiddenStart
  staticValues : c.staticValuesWord = .ofResult c.staticValues
  start : ∀ kind, c.startWord kind = .ofResult (c.start kind)
  nextEntry : ∀ kind cursor, nextEntryWord c.image kind cursor = .ofResult (nextEntry c.image kind cursor)
  directory : c.directory.Fits
  methods : ∀ kind m, .ok m ∈ c.methods kind → m.Fits

theorem StoredClass.Within.fits {c : StoredClass} (h : c.Within) : c.Fits where
  listStart := listStartWord_eq h
  preceding := precedingWord_eq h
  hiddenStart := hiddenStartWord_eq h
  staticValues := staticValuesWord_eq h
  start := startWord_eq h
  nextEntry := nextEntryWord_eq h.image.bytes_lt
  directory := h.directory.fits (h.directory_image ▸ h.image.bytes_lt)
  methods kind m hm := by
    obtain ⟨found, hentry, hmethod⟩ := List.mem_map.mp hm
    obtain ⟨entry, rfl, hof⟩ := Result.bind_eq_ok hmethod
    have hsize : entry.size ≤ 3 * Leb128.maxLength := by
      rw [entries] at hentry
      split at hentry
      · exact size_le_of_entriesFrom h.image.bytes_lt hentry
      · cases List.mem_singleton.mp hentry
    obtain ⟨_, -, hof⟩ := Result.bind_eq_ok hof
    obtain ⟨_, -, hof⟩ := Result.bind_eq_ok hof
    cases hof
    exact StoredMethod.fits h.image.bytes_lt hsize

/-- Whatever is read from an image, no step leaves the bytes, no shift is as wide as the
word that is shifted, and what is computed with offsets and sizes fits into words. -/
structure Image.Fits (image : Image) : Prop where
  reads : ∀ {α : Type} {step : Read α}, image.Reads step → ∀ bytes offset, InRange bytes (do Read.seek offset; step) 0
  unsigned : ∀ bytes, Leb128.unsignedWord Leb128.maxLength 0 0 bytes =
    some ((Leb128.decodeUnsigned bytes).map fun (v, k) => (v.toNat, k))
  signed : ∀ bytes, Leb128.signedWord Leb128.maxLength 0 0 bytes =
    some ((Leb128.decodeSigned bytes).map fun (v, k) => (v.toUInt32.toNat, k))
  sizedSigned : ∀ size raw, 0 < size → size ≤ 8 → raw < byteBound size →
    Read.sizedSignedWord size raw = some (Int.bmod raw (byteBound size))
  sizedRight : ∀ size width raw, 0 < size → size ≤ width → width ≤ 8 → raw < byteBound size →
    Read.sizedRightWord size width raw = some (raw * byteBound (width - size))
  registers : ∀ op start high bytes offset index registers next,
    (Operands.read.readList op start high).on bytes offset = (.ok (index, registers), next) →
    high / 0x10 ≤ 5 ∧ registers.length = high / 0x10
  special : ∀ state bytes offset address line after next,
    (StoredCode.readDebug image state).on bytes offset = (.ok (.emit ⟨address, .line line⟩ after), next) →
    ∃ op : UInt8, ∃ adjusted, Read.ubyte.on bytes offset = (.ok op, next) ∧
      Word.sub op.toNat DebugState.firstSpecial = some adjusted ∧
      address = state.address + UInt32.ofNat (adjusted / DebugState.lineRange)
  items : ∀ what index (s : Section) size, size ≤ 32 →
    itemOffsetWord what index s.size s.offset.toNat size = .ofResult (sectionOffset s what index size)
  setEntries : ∀ offset index : UInt32,
    setEntryWord offset.toNat index.toNat = some (offset.toNat + 4 + 4 * index.toNat)
  elements : ∀ offset a, image.annotationAt offset = .ok a → Word.fit 32 a.elementsOffset = some a.elementsOffset
  directories : ∀ fields methods parameters : UInt32,
    StoredDirectory.entriesSizeWord fields.toNat methods.toNat parameters.toNat =
      some ((fields.toNat + methods.toNat + parameters.toNat) * StoredDirectory.entrySize)
  counts : ∀ statics instances directs virtuals : UInt32,
    StoredClass.countsWord statics.toNat instances.toNat directs.toNat virtuals.toNat =
      some (2 * (statics.toNat + instances.toNat) + 3 * (directs.toNat + virtuals.toNat))
  members : ∀ (view : StoredClass) offset, image.markWord (view.readCounts offset)
    (fun counted first => { counted with membersOffset := first }) offset =
      .ofResult (image.readAt (view.readSizes offset) offset)
  codeEnds : ∀ offset units : UInt32,
    StoredCode.endWord offset.toNat units.toNat = some (offset.toNat + StoredCode.headSize + 2 * units.toNat)
  classes : ∀ index c, StoredClass.at? image index = .ok c → c.Fits
  bodies : ∀ offset c, StoredCode.at? image offset = .ok c → c.Fits

theorem Image.Within.fits {image : Image} (h : image.Within) : image.Fits where
  reads hreads := hreads.guarded.inRange_at?
  unsigned := Leb128.unsignedWord_eq
  signed := Leb128.signedWord_eq
  sizedSigned _ _ hpos hsize hraw := Read.sizedSignedWord_eq hpos hsize hraw
  sizedRight _ _ _ hpos hsize hwidth hraw := Read.sizedRightWord_eq hpos hsize hwidth hraw
  registers _ _ _ _ _ _ _ _ hlist := Operands.length_of_readList hlist
  special _ _ _ _ _ _ _ hline := StoredCode.special_of_readDebug hline
  items what index s size hsize := itemOffsetWord_eq what index s.size s.offset.toNat_lt hsize
  setEntries offset index := setEntryWord_eq offset.toNat_lt index.toNat_lt
  elements offset a ha := by
    have hle := elementsOffset_le ha
    have hbytes := h.bytes_lt
    rw [extentBound] at hbytes
    exact Word.fit_eq (by omega)
  directories := StoredDirectory.entriesSizeWord_eq
  counts := StoredClass.countsWord_eq
  members view offset := markWord_eq h.bytes_lt (view.guarded_readCounts offset) _ offset
  codeEnds offset units := StoredCode.endWord_eq offset.toNat_lt units.toNat_lt
  classes index c hc := (StoredClass.within_of_at? h hc).2.fits
  bodies offset c hc := (StoredCode.within_of_at? h.bytes_lt hc).2.fits

/-- What is computed for an image of fewer than 2³¹ bytes fits into words, whatever the
bytes are. -/
theorem Image.fits_of_ofBytes {bytes : Bytes} {image : Image} (h : Image.ofBytes bytes = .ok image)
    (hsize : bytes.size < extentBound) : image.Fits :=
  (within_of_ofBytes h hsize).fits

/-! ### An offset that does not fit -/

namespace Image

/-- The header of an image that announces more methods than offsets of 32 bits can reach. -/
def farHeader : Header where
  magic := Header.magicOf 35
  checksum := 0
  signature := Vector.replicate 20 0
  fileSize := 0x9b
  headerSize := 0x70
  endianTag := Header.littleEndianTag
  link := {}
  mapOffset := 0
  stringIds := {}
  typeIds := {}
  protoIds := {}
  fieldIds := {}
  methodIds := ⟨0x20000001, 0x70⟩
  classDefs := ⟨1, 0x70⟩
  data := {}

/-- A class whose members are at the end of the image. -/
def farClass : ClassDefItem where
  type := 0
  accessFlags := 0
  superclass := 0xffffffff
  interfacesOffset := 0
  sourceFile := 0xffffffff
  annotationsOffset := 0
  classDataOffset := 0x90
  staticValuesOffset := 0

/-- The bytes of the image. The class has one virtual method: the last of those that are
announced. -/
def farBytes : Bytes :=
  (farHeader.write ++ Layout.write farClass ++ [0, 0, 0, 1, 0x80, 0x80, 0x80, 0x80, 0x02, 0, 0]).toArray

/-- The image. -/
def far : Image :=
  { bytes := farBytes, header := farHeader, opcodes := ⟨23⟩ }

/-- The class of the image. -/
def farView : StoredClass where
  image := far
  index := 0
  item := farClass
  directory := { image := far, offset := 0 }
  virtualCount := 1
  membersOffset := 0x94

/-- The entry of the method. -/
def farEntry : MemberEntry where
  index := 0x20000000
  flags := 0
  codeOffset := 0
  size := 7
  valueOffset := none
  hiddenFlags := none

/-- The method. -/
def farMethod : StoredMethod where
  image := far
  classIndex := 0
  index := 0x20000000
  flags := ⟨0⟩
  codeOffset := 0
  entrySize := 7
  annotationsOffset := 0
  parametersOffset := 0
  hiddenFlags := none

set_option maxRecDepth 20000 in
theorem ofBytes_far : Image.ofBytes farBytes = .ok far := rfl

set_option maxRecDepth 20000 in
theorem entries_far : StoredClass.at? far 0 = .ok farView ∧ farView.entries .virtualMethod = [.ok farEntry] :=
  ⟨rfl, rfl⟩

theorem method_far : farView.method farEntry = .ok farMethod := by
  have hnone (start : Nat) (index : UInt32) : StoredDirectory.search far start index 0 0 = .ok 0 := by
    rw [StoredDirectory.search]
    rfl
  have hmethod : farView.directory.methodOffset farEntry.index = .ok 0 := hnone _ _
  have hparameter : farView.directory.parameterOffset farEntry.index = .ok 0 := hnone _ _
  rw [StoredClass.method, hmethod, hparameter]
  rfl

/-- The image is opened, and all of it fits into words but for the offset of the identifier
of its method, which the method takes to be that of the first method. -/
theorem fits_of_ofBytes_far : Image.ofBytes farBytes = .ok far ∧ farBytes.size < extentBound ∧ far.Fits ∧
    .ok farMethod ∈ farView.methods .virtualMethod ∧ far.methodIdOffset farMethod.index = .ok 0x100000070 ∧
      farMethod.idOffset = .ok 0x70 := by
  have hsize : farBytes.size < extentBound := by decide +kernel
  have hmethod : .ok farMethod ∈ farView.methods .virtualMethod := by
    rw [StoredClass.methods, entries_far.2]
    exact List.mem_singleton.mpr method_far.symm
  exact ⟨ofBytes_far, hsize, fits_of_ofBytes ofBytes_far hsize, hmethod, rfl, rfl⟩

end Image

end Dalvik
