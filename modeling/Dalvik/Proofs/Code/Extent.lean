import Dalvik.Proofs.Assembly.Bodies
import Dalvik.Proofs.Assembly.Preservation
import Dalvik.Proofs.Code.Item

/-!
# The extent of a code item

The readers step over the list of handlers of a code item without looking at it, and find
where the item ends. This is where the writer ended it (`CodeItem.LaidOut.size_eq`), if every
try block has a handler: the number of units, the padding behind them and the list of
handlers are all taken as they were written. `Assembly.codeItem_extent` says so of any image
that a code item stands in, and of the bodies of a file.
-/

namespace Dalvik

namespace CodeItem

open Read Result StoredCode

variable {n : Numbering}

/-! ## Steps over handlers -/

/-- The entry of some handlers is stepped over as a whole. -/
theorem yields_skipHandlers {handlers : List Handler} (hne : handlers ≠ []) {form : List UInt8}
    (hform : writeHandlers n handlers = .ok form) (hlength : form.length < extentBound) :
    Yields skipHandlers form () := by
  obtain ⟨size, entries, last, rfl, hentries, hsize, hlast⟩ :=
    exists_parts_of_writeHandlers hne hform (length_typed_lt hform hlength)
  have hpair : ∀ entry ∈ entries, Yields (do discard Read.uleb128; discard Read.uleb128) entry () := by
    intro entry hentry
    obtain ⟨h, hh, hentry⟩ := exists_of_mem_mapM hentries hentry
    obtain ⟨d, index, -, -, rfl⟩ := exists_of_writeTyped (List.mem_filter.mp hh).2 hentry
    exact (yields_uleb128 index).discard.bind (yields_uleb128 h.address).discard
  have hpairs := Yields.repeated hpair
  rw [← (forall₂_of_mapM hentries).length_eq, ← hsize] at hpairs
  refine (yields_sleb128 size).bind (hpairs.bind ?_)
  rcases hlast with ⟨hpos, -, rfl⟩ | ⟨address, hle, -, rfl⟩
  · rw [if_neg (Int.not_le.mpr hpos)]
    exact .pure ()
  · rw [if_pos hle]
    exact (yields_uleb128 address).discard

/-- The entries of a list of handlers follow each other. -/
theorem exists_forms_of_writeEntries {lists : List (List Handler)} {position : Nat}
    {places : List (List Handler × UInt16)} {form : List UInt8}
    (h : writeEntries n position lists = .ok (places, form)) :
    ∃ entries, form = entries.flatten ∧
      List.Forall₂ (fun handlers entry => writeHandlers n handlers = .ok entry) lists entries := by
  induction lists generalizing position places form with
  | nil =>
    cases h
    exact ⟨[], rfl, .nil⟩
  | cons handlers lists ih =>
    obtain ⟨place, -, h⟩ := bind_eq_ok h
    obtain ⟨entry, hentry, h⟩ := bind_eq_ok h
    obtain ⟨⟨rest, others⟩, hrest, h⟩ := bind_eq_ok h
    cases h
    obtain ⟨entries, rfl, hentries⟩ := ih hrest
    exact ⟨entry :: entries, rfl, .cons hentry hentries⟩

/-- The list of the handlers of some try blocks are entries behind their number, and each entry
is stepped over as a whole. -/
theorem exists_forms_of_writeHandlerList {tries : List TryBlock} (hne : ∀ t ∈ tries, t.handlers ≠ [])
    {form : List UInt8} {places : List UInt16} (hform : writeHandlerList n tries = .ok (form, places))
    (hlength : form.length < extentBound) : ∃ entries : List (List UInt8),
      form = Write.uleb128 (UInt32.ofNat entries.length) ++ entries.flatten ∧ entries.length < extentBound ∧
      ∀ entry ∈ entries, Yields skipHandlers entry () := by
  obtain ⟨⟨table, bytes⟩, hwritten, hform⟩ := bind_eq_ok hform
  cases hform
  obtain ⟨entries, rfl, hentries⟩ := exists_forms_of_writeEntries hwritten
  rw [List.length_append] at hlength
  have hskip : ∀ entry ∈ entries, Yields skipHandlers entry () ∧ entry ≠ [] := by
    intro entry hentry
    obtain ⟨handlers, hhandlers, hform⟩ := exists_mem_left hentries hentry
    rw [List.mem_eraseDups] at hhandlers
    obtain ⟨t, ht, rfl⟩ := List.mem_map.mp hhandlers
    have hshort := (List.sublist_flatten_of_mem hentry).length_le
    refine ⟨yields_skipHandlers (hne t ht) hform (by omega), ?_⟩
    obtain ⟨-, _, -, rfl⟩ := exists_of_writeHandlers hform
    rw [List.append_assoc]
    exact List.append_ne_nil_of_left_ne_nil (List.length_pos_iff.mp (Leb128.encodeInt_pos _)) _
  have hcount := length_le_length_flatten fun entry hentry => (hskip entry hentry).2
  exact ⟨entries, by rw [hentries.length_eq], by omega, fun entry hentry => (hskip entry hentry).1⟩

/-! ## Whole items -/

namespace LaidOut

variable {opcodes : Opcodes} {c : StoredCode} {code : Code} {debugOffset : Nat} {form : List UInt8}
  (h : LaidOut c n opcodes code debugOffset form)

include h

/-- There are as many units as the instructions have. -/
theorem unitCount_eq : c.unitCount = code.codeUnits := by
  obtain ⟨indexed, instructions, hindexed, hinstructions, -⟩ := h.instructions
  exact (Instruction.length_encodeAll hindexed hinstructions).2

/-- The item ends where it was written to end. -/
theorem size_eq (hne : ∀ t ∈ code.tries, t.handlers ≠ []) (hlt : form.length < extentBound) :
    c.size = .ok form.length := by
  obtain ⟨tries, htries, hheld, hlength⟩ := h.tries
  -- Behind the instructions there is nothing without try blocks, not even padding.
  by_cases hnil : code.tries = []
  · rw [hnil] at htries
    cases htries
    rw [StoredCode.size, if_pos (by rw [h.tryCount, hnil]; rfl), hlength]
    rfl
  · obtain ⟨handlers, places, hlist, htriesLength, -, hlast⟩ := exists_places h.tryCount htries hheld hnil
    obtain ⟨entries, rfl, hcount, hentries⟩ := exists_forms_of_writeHandlerList hne hlist (by omega)
    have hvalue : (UInt32.ofNat entries.length).toNat = entries.length :=
      UInt32.toNat_ofNat_of_lt' (Nat.lt_trans hcount (by decide))
    rw [StoredCode.size, if_neg (by rw [h.tryCount]; simpa using hnil)]
    have hskipped : YieldsAt (do
        let count := (← Read.smallUleb128).toNat
        Read.repeated skipHandlers count
        return (← Read.tell) - c.offset)
        (Write.uleb128 (UInt32.ofNat entries.length) ++ entries.flatten) fun offset => offset - c.offset := by
      refine (yields_smallUleb128 (by rwa [hvalue])).bind_at ?_
      dsimp only
      rw [hvalue]
      exact (Yields.repeated hentries).bind_tell fun _ offset => offset - c.offset
    refine (hskipped.at? hlast).trans (congrArg Except.ok ?_)
    rw [hlength, htriesLength, handlersStart, triesStart, instructionsStart]
    omega

/-- The try blocks are read with their starts and counts, and their handlers in order. -/
theorem tries_eq (hreads : c.image.ReadsTypes n) (htries : ∀ t ∈ code.tries, t.Readable)
    (hlt : form.length < extentBound) : c.tries = .ok (code.tries.map TryBlock.inOrder) := by
  obtain ⟨tries, hwritten, hheld, hlength⟩ := h.tries
  exact CodeItem.tries_eq h.tryCount hwritten hheld hreads htries (by omega)

end LaidOut

end CodeItem

/-! ## Bodies -/

/-- Every try block of a body has a handler, and the addresses of the handlers are small. -/
def Code.Handled (c : Code) : Prop :=
  ∀ t ∈ c.tries, t.handlers ≠ [] ∧ ∀ h ∈ t.handlers, h.address.toNat < extentBound

/-- A code item is as long as that of a body, and has its units and its try blocks, with their
starts and counts as they are and their handlers in order. -/
structure StoredCode.Measures (c : StoredCode) (code : Code) (length : Nat) : Prop where
  size : c.size = .ok length
  unitCount : c.unitCount = code.codeUnits
  tries : (∀ t ∈ code.tries, t.start.toNat < extentBound) → c.tries = .ok (code.tries.map TryBlock.inOrder)

/-- The code item of a body is measured wherever it stands in an image with the same types. -/
theorem CodeItem.exists_measured {n : Numbering} {opcodes : Opcodes} {m : MethodDef} {code : Code}
    {debugOffset : UInt32} {form : List UInt8} (h : encode n opcodes m code debugOffset = .ok form)
    (hhandled : code.Handled) (hdebug : debugOffset.toNat < extentBound) (hlt : form.length < extentBound)
    {image : Image} (hreads : image.ReadsTypes n) {offset : Nat} (hbytes : image.bytes.Holds offset form) :
    ∃ c, StoredCode.at? image offset = .ok c ∧ c.Measures code form.length := by
  obtain ⟨c, hat, rfl, -, hlaid⟩ := exists_laidOut hdebug h hlt hbytes
  refine ⟨c, hat, hlaid.size_eq (fun t ht => (hhandled t ht).1) hlt, hlaid.unitCount_eq, fun hstarts => ?_⟩
  exact hlaid.tries_eq hreads (fun t ht => ⟨hstarts t ht, (hhandled t ht).1, (hhandled t ht).2⟩) hlt

namespace Blueprint.Opens

variable {b : Blueprint} {t : DataTables} {image : Image} (h : b.Opens t image)

include h

/-- The code item of every body stands in the file. -/
theorem exists_form {cm : ClassDef × MethodDef} (hcm : cm ∈ b.methods) {code : Code} (hcode : cm.2.code = some code) :
    ∃ form offset, CodeItem.encode b.pools.numbering b.opcodes cm.2 code (offsetIn t.debug cm.2.sig) = .ok form ∧
      image.bytes.Holds offset form := by
  obtain ⟨items, hitems, placed, -, hplaced, -⟩ := h.data.code
  obtain ⟨items?, hmade, hitems⟩ := Result.bind_eq_ok hitems
  cases hitems
  obtain ⟨item?, hmem, hitem⟩ := exists_mem_right (Result.forall₂_of_mapM hmade) hcm
  replace hitem : b.codeItem? t.debug cm.1 cm.2 = .ok item? := hitem
  rw [codeItem?, hcode] at hitem
  obtain ⟨form, hform, hitem⟩ := Result.bind_eq_ok hitem
  cases hitem
  obtain ⟨offset, -, -, hheld⟩ := hplaced.exists_of_mem (List.mem_filterMap.mpr ⟨_, hmem, rfl⟩)
  exact ⟨form, offset, Result.within_eq_ok hform, hheld⟩

end Blueprint.Opens

namespace Assembly

/-- A small file that has been written after some calls can be opened. -/
theorem exists_opens_of_write {opcodes : Opcodes} {calls : List Call} {a : Assembly} (ha : history opcodes calls = a)
    {bytes : Bytes} (hwrite : (write.on a).1 = .ok bytes) (hsize : bytes.size < extentBound) :
    a.Sealed ∧ ∃ t image, Image.ofBytes bytes = .ok image ∧ a.blueprint.Opens t image := by
  obtain ⟨hsealed, hwritten⟩ := (ha ▸ reliable_history opcodes calls : a.Reliable).sealed_of_write hwrite
  obtain ⟨t, image, himage, -, hopens⟩ := Blueprint.opens_write hsealed.ranked hwritten hsize
  exact ⟨hsealed, t, image, himage, hopens⟩

/-- The code items of all bodies of the classes that have been added stand in the file. -/
theorem exists_form_of_added {opcodes : Opcodes} {calls : List Call} {a : Assembly} (ha : history opcodes calls = a)
    {t : Blueprint.DataTables} {image : Image} (hopens : a.blueprint.Opens t image) {c : ClassDef}
    (hadded : Added opcodes calls c) {m : MethodDef} (hm : m ∈ c.methods) {code : Code} (hcode : m.code = some code) :
    ∃ (debugOffset : UInt32) (form : List UInt8) (offset : Nat),
      CodeItem.encode a.pools.numbering a.opcodes m code debugOffset = .ok form ∧
      debugOffset.toNat < extentBound ∧ form.length < extentBound ∧ image.bytes.Holds offset form := by
  have hc : c.ordered ∈ a.blueprint.classes := ha ▸ (mem_blueprint_history opcodes calls _).mpr ⟨c, hadded, rfl⟩
  have hcm := Blueprint.mem_methods hc (c.perm_methods_ordered.mem_iff.mpr hm)
  obtain ⟨form, offset, hform, hheld⟩ := hopens.exists_form hcm hcode
  have hle := hheld.le_size
  have hlt := hopens.size_lt
  exact ⟨_, form, offset, hform, hopens.offsetIn_debug_lt m.sig, by omega, hheld⟩

/-- Wherever the code item of a body stands in an image with the same types, it is measured as it was written: its
bytes, its units, and the starts and counts of its try blocks. For this every try block has to have a handler, and
the addresses of handlers have to be small. In a file the code items of all bodies of the classes that have been added
stand somewhere. -/
theorem codeItem_extent :
    (∀ (n : Numbering) (opcodes : Opcodes) (m : MethodDef) (code : Code) (debugOffset : UInt32) (form : List UInt8),
      CodeItem.encode n opcodes m code debugOffset = .ok form → code.Handled → debugOffset.toNat < extentBound →
      form.length < extentBound → ∀ (image : Image) (offset : Nat), image.ReadsTypes n → image.bytes.Holds offset form →
        ∃ c, StoredCode.at? image offset = .ok c ∧ c.Measures code form.length) ∧
    ∀ (opcodes : Opcodes) (calls : List Call) (a : Assembly) (bytes : Bytes), history opcodes calls = a →
      (write.on a).1 = .ok bytes → bytes.size < extentBound → ∃ image, Image.ofBytes bytes = .ok image ∧
        image.ReadsTypes a.pools.numbering ∧ ∀ added, Added opcodes calls added → ∀ m ∈ added.methods, ∀ code ∈ m.code,
          ∃ debugOffset form offset, CodeItem.encode a.pools.numbering a.opcodes m code debugOffset = .ok form ∧
            image.bytes.Holds offset form ∧ (code.Handled →
              ∃ c, StoredCode.at? image offset = .ok c ∧ c.Measures code form.length) := by
  refine ⟨fun n opcodes m code debugOffset form h hhandled hdebug hlt image offset hreads hbytes =>
    CodeItem.exists_measured h hhandled hdebug hlt hreads hbytes, fun opcodes calls a bytes ha hwrite hsize => ?_⟩
  obtain ⟨hsealed, t, image, himage, hopens⟩ := exists_opens_of_write ha hwrite hsize
  have hreads : image.ReadsTypes a.pools.numbering := (hopens.undoes hsealed.ranked hsealed.closed).type
  refine ⟨image, himage, hreads, fun added hadded m hm code hcode => ?_⟩
  obtain ⟨_, form, offset, hform, hdebug, hlt, hheld⟩ := exists_form_of_added ha hopens hadded hm hcode
  exact ⟨_, form, offset, hform, hheld, fun hhandled =>
    CodeItem.exists_measured hform hhandled hdebug hlt hreads hheld⟩

/-- The calls that add the class and the marker of a small file and finalize. -/
def smallCalls : List Call :=
  DexFile.small.requests.map .ask ++ [.finalize]

theorem added_small : Added .standard smallCalls DexFile.smallClass := by
  have hview : DexFile.smallClass.view.toClass = .ok DexFile.smallClass := by
    rw [ClassDef.toClass_view, (DexFile.canonical_small.classes _ (List.mem_singleton_self _)).arranged_eq]
  have hadded := ((gathered_empty .standard).on_addClass_ok_iff DexFile.smallClass.view).mpr
    ⟨_, hview, by simp [defines]⟩
  exact ⟨[], _, _, rfl, .ask hview hadded⟩

theorem exists_small : ∃ a bytes, history .standard smallCalls = a ∧ a.blueprint.classes = [DexFile.smallClass] ∧
    a.opcodes = .standard ∧ (write.on a).1 = .ok bytes ∧ bytes.size < extentBound := by
  have hgathered := gathered_gather DexFile.small.opcodes DexFile.small.requests
  have hsealed := hgathered.sealed_finalize.2
  have hclasses := DexFile.canonical_small.classes_blueprint.trans (List.perm_singleton.mp (ClassOrder.arrange_perm _))
  obtain ⟨bytes, hwrite, hsize⟩ := DexFile.exists_write_small DexFile.canonical_small.settled hclasses
    DexFile.canonical_small.has_iff DexFile.small.opcodes_blueprint
  exact ⟨_, bytes, history_finalize .standard DexFile.small.requests, hclasses, DexFile.small.opcodes_blueprint,
    (congrArg Prod.fst (on_write hsealed.ranked)).trans hwrite, hsize⟩

/-- A body of an odd number of units, with two try blocks of which the first has a handler for a
single type. -/
def caughtCode : Code where
  registers := 0
  instructions := .replicate 3 ⟨⟨"return-void", 0x0e, .none, .f10x, [], none, none, none⟩, .f10x⟩
  tries := [⟨0, 1, [⟨none, 1⟩, ⟨some "I", 2⟩]⟩, ⟨1, 1, [⟨none, 2⟩]⟩]

/-- The padding, the try items and the list of handlers of the body are measured, and so is the
body of a method in a file. -/
theorem codeItem_extent_caught : ∃ (form : List UInt8) (c : StoredCode) (a : Assembly) (bytes : Bytes) (image : Image),
    CodeItem.encode ofInt.pools.numbering .standard DexFile.smallMethod caughtCode 0 = .ok form ∧
    caughtCode.Handled ∧ form.length = 47 ∧ (imageOfInt form).ReadsTypes ofInt.pools.numbering ∧
    (imageOfInt form).bytes.Holds 11 form ∧ StoredCode.at? (imageOfInt form) 11 = .ok c ∧ c.size = .ok 47 ∧
    c.unitCount = 3 ∧ c.tries = .ok [⟨0, 1, [⟨some "I", 2⟩, ⟨none, 1⟩]⟩, ⟨1, 1, [⟨none, 2⟩]⟩] ∧
    history .standard smallCalls = a ∧ (write.on a).1 = .ok bytes ∧ bytes.size < extentBound ∧
    Image.ofBytes bytes = .ok image ∧ ∃ offset c, StoredCode.at? image offset = .ok c ∧ c.unitCount = 1 := by
  obtain ⟨hnumbers, -, hindex, -⟩ := numbers_ofInt
  have htype : ofInt.pools.numbering.type "I" = .ok 0 :=
    hindex ▸ (hnumbers.type "I").1 ((has_ofInt (.type "I")).mpr (by decide))
  have hforms : Write.uleb128 2 = [0x02] ∧ Write.uleb128 0 = [0x00] ∧ Write.uleb128 1 = [0x01] ∧
      Write.sleb128 0 = [0x00] ∧ Write.sleb128 (-1) = [0x7f] := by
    decide +kernel
  have hlist : CodeItem.writeHandlerList ofInt.pools.numbering caughtCode.tries =
      .ok ([0x02, 0x7f, 0x00, 0x02, 0x01, 0x00, 0x02], [1, 5]) := by
    obtain ⟨hcount, htyped, hcatchAll, hnone, hone⟩ := hforms
    simp [CodeItem.writeHandlerList, CodeItem.writeEntries, CodeItem.writeHandlers, CodeItem.writeTyped, caughtCode,
      List.eraseDups, List.eraseDupsBy, List.eraseDupsBy.loop, List.lookup_cons, narrow, Except.map, Result.ok_bind,
      htype, hcount, htyped, hcatchAll, hnone, hone]
  have htries : CodeItem.writeTries ofInt.pools.numbering 3 caughtCode.tries =
      .ok (Write.ushort 0 ++ (caughtCode.tries.zipWith CodeItem.writeTry [1, 5]).flatten ++
        [0x02, 0x7f, 0x00, 0x02, 0x01, 0x00, 0x02]) := by
    rw [CodeItem.writeTries, hlist]
    rfl
  obtain ⟨form, hform, hlength⟩ : ∃ form, CodeItem.encode ofInt.pools.numbering .standard DexFile.smallMethod
      caughtCode 0 = .ok form ∧ form.length = 47 := by
    obtain ⟨indexed, code, hindexed, hcode, hlength⟩ : ∃ indexed code,
        (caughtCode.instructions.mapM fun i => i.mapReferences fun _ r => ofInt.pools.numbering.indexOf r) =
          .ok indexed ∧ Instruction.encodeAll .standard indexed = (code, .ok 3) ∧ code.length = 6 :=
      ⟨_, _, rfl, rfl, rfl⟩
    rw [CodeItem.encode, hindexed, Result.ok_bind, hcode]
    dsimp only
    rw [Result.ok_bind, show narrow "try count" caughtCode.tries.length = .ok 2 from rfl, Result.ok_bind, htries,
      Result.ok_bind]
    refine ⟨_, rfl, ?_⟩
    simp [hlength, caughtCode, CodeItem.writeTry]
  have hreads : (imageOfInt form).ReadsTypes ofInt.pools.numbering := fun {d i} hd => by
    obtain ⟨hkey, rfl⟩ := hnumbers.type.of_eq_ok hd
    obtain rfl : d = "I" := by simpa [Entry.ofType] using (has_ofInt (.type d)).mp hkey
    rw [hindex]
    exact ⟨by decide, type_imageOfInt form⟩
  have hhandled : caughtCode.Handled ∧ DexFile.smallCode.Handled := by unfold Code.Handled; decide
  have hheld := (holds_imageOfInt form).2.2.2
  obtain ⟨c, hat, hmeasures⟩ := codeItem_extent.1 _ _ _ _ _ _ hform hhandled.1 (by decide) (by rw [hlength]; decide) _ _
    hreads hheld
  obtain ⟨a, bytes, ha, -, -, hwrite, hsize⟩ := exists_small
  obtain ⟨image, himage, -, hbodies⟩ := codeItem_extent.2 _ _ _ _ ha hwrite hsize
  obtain ⟨debugOffset, smallForm, offset, -, hsmallHeld, hsmall⟩ :=
    hbodies _ added_small DexFile.smallMethod (by decide) DexFile.smallCode rfl
  obtain ⟨c', hat', hmeasures'⟩ := hsmall hhandled.2
  exact ⟨form, c, a, bytes, image, hform, hhandled.1, hlength, hreads, hheld, hat, hlength ▸ hmeasures.size,
    hmeasures.unitCount, hmeasures.tries (by decide), ha, hwrite, hsize, himage, offset, c', hat', hmeasures'.unitCount⟩

end Assembly

end Dalvik
