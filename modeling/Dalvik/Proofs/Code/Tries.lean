import Dalvik.Assembly.CodeItem
import Dalvik.Image.Code
import Dalvik.Proofs.Assembly.Sections
import Dalvik.Proofs.Value.RoundTrip

/-!
# Handlers are read as they were written

The list of handlers holds an entry for each different list of handlers, and the
entry is read as the handlers in the order of `Handler.inOrder`
(`CodeItem.yields_readHandlers`). Each try block finds the entry of its own
handlers (`CodeItem.exists_of_writeHandlerList`).
-/

namespace Dalvik

/-- The handlers for single types and then those for all exceptions. -/
def Handler.inOrder (handlers : List Handler) : List Handler :=
  handlers.filter (·.type.isSome) ++ handlers.filter (·.type.isNone)

/-- The same try block with its handlers in order. -/
def TryBlock.inOrder (t : TryBlock) : TryBlock :=
  { t with handlers := Handler.inOrder t.handlers }

/-- What the readers demand of a try block: it has a handler, and its addresses are
small. -/
structure TryBlock.Readable (t : TryBlock) : Prop where
  start_lt : t.start.toNat < extentBound
  handlers_ne_nil : t.handlers ≠ []
  address_lt : ∀ h ∈ t.handlers, h.address.toNat < extentBound

/-- The image has each type behind the index that the numbering gives it, and this index is small. -/
def Image.ReadsTypes (image : Image) (n : Numbering) : Prop :=
  ∀ {d i}, n.type d = .ok i → i.toNat < extentBound ∧ image.type i = .ok d

namespace CodeItem

open Read Result StoredCode

variable {n : Numbering} {image : Image}

/-! ## The handlers of a try block -/

/-- The entry of a handler for a single type. -/
theorem exists_of_writeTyped {h : Handler} (htype : h.type.isSome) {form : List UInt8}
    (hform : writeTyped n h = .ok form) : ∃ (d : String) (index : UInt32), h = ⟨some d, h.address⟩ ∧
      n.type d = .ok index ∧ form = Write.uleb128 index ++ Write.uleb128 h.address := by
  obtain ⟨type, address⟩ := h
  obtain ⟨d, rfl⟩ := Option.isSome_iff_exists.mp htype
  obtain ⟨index, hindex, rfl⟩ := map_eq_ok hform
  exact ⟨d, index, rfl, hindex, rfl⟩

theorem yields_readTyped (htypes : image.ReadsTypes n) {h : Handler}
    (htype : h.type.isSome) (haddress : h.address.toNat < extentBound) {form : List UInt8}
    (hform : writeTyped n h = .ok form) : Yields (readTyped image) form h := by
  obtain ⟨d, index, heq, hindex, rfl⟩ := exists_of_writeTyped htype hform
  obtain ⟨hlt, hfound⟩ := htypes hindex
  rw [heq]
  refine (yields_smallUleb128 hlt).bind ?_
  exact (Value.yields_ofResult hfound).nil_bind ((yields_smallUleb128 haddress).bind_pure _)

/-- The number of handlers for single types, as the entry gives it. -/
theorem toInt_size {count : Nat} (h : count < extentBound) (negative : Bool) :
    (if negative then Int32.ofNat count else -Int32.ofNat count).toInt = if negative then (count : Int) else -count := by
  have hcount : (Int32.ofNat count).toInt = count := Int32.toInt_ofNat_of_lt h
  unfold extentBound at h
  cases negative with
  | true => exact hcount
  | false =>
    simp only [Bool.false_eq_true, if_false, Int32.toInt_neg, hcount]
    exact Int.bmod_eq_of_le (by omega) (by omega)

/-- There is at most one handler for all exceptions, and it comes last. -/
theorem exists_of_writeHandlers {handlers : List Handler} {form : List UInt8}
    (h : writeHandlers n handlers = .ok form) :
    (handlers.filter (·.type.isNone)).length ≤ 1 ∧
      ∃ entries, (handlers.filter (·.type.isSome)).mapM (writeTyped n) = .ok entries ∧
        form = Write.sleb128 (if (handlers.filter (·.type.isNone)).isEmpty
            then Int32.ofNat (handlers.filter (·.type.isSome)).length
            else -Int32.ofNat (handlers.filter (·.type.isSome)).length) ++
          entries.flatten ++ (handlers.filter (·.type.isNone)).flatMap fun h => Write.uleb128 h.address := by
  unfold writeHandlers at h
  dsimp only at h
  split at h
  · cases h
  · obtain ⟨entries, hentries, h⟩ := bind_eq_ok h
    exact ⟨by omega, entries, hentries, (Except.ok.inj h).symm⟩

/-- Each handler takes a byte, so there are few of them in a short entry. -/
theorem length_typed_lt {handlers : List Handler} {form : List UInt8} (hform : writeHandlers n handlers = .ok form)
    (hlength : form.length < extentBound) : (handlers.filter (·.type.isSome)).length < extentBound := by
  obtain ⟨-, entries, hentries, rfl⟩ := exists_of_writeHandlers hform
  have hcount := length_le_length_flatten fun entry hentry => by
    obtain ⟨h, hh, hentry⟩ := exists_mem_left (forall₂_of_mapM hentries) hentry
    obtain ⟨_, _, -, -, rfl⟩ := exists_of_writeTyped (List.mem_filter.mp hh).2 hentry
    exact List.append_ne_nil_of_left_ne_nil (Leb128.encodeUnsigned_ne_nil _) _
  rw [← (forall₂_of_mapM hentries).length_eq] at hcount
  rw [List.length_append, List.length_append] at hlength
  omega

/-- The entry of some handlers: their number, those for single types, and behind a number
that is not positive the one for all exceptions. -/
theorem exists_parts_of_writeHandlers {handlers : List Handler} (hne : handlers ≠ []) {form : List UInt8}
    (hform : writeHandlers n handlers = .ok form)
    (htyped : (handlers.filter (·.type.isSome)).length < extentBound) :
    ∃ (size : Int32) (entries : List (List UInt8)) (last : List UInt8),
      form = Write.sleb128 size ++ (entries.flatten ++ last) ∧
      (handlers.filter (·.type.isSome)).mapM (writeTyped n) = .ok entries ∧
      size.toInt.natAbs = (handlers.filter (·.type.isSome)).length ∧
      ((0 < size.toInt ∧ handlers.filter (·.type.isNone) = [] ∧ last = []) ∨
        ∃ address, size.toInt ≤ 0 ∧ handlers.filter (·.type.isNone) = [⟨none, address⟩] ∧
          last = Write.uleb128 address) := by
  obtain ⟨hone, entries, hentries, rfl⟩ := exists_of_writeHandlers hform
  have hsize := toInt_size htyped (handlers.filter (·.type.isNone)).isEmpty
  refine ⟨_, entries, _, List.append_assoc .., hentries, ?_, ?_⟩
  · rw [hsize]
    split
    · rfl
    · exact Int.natAbs_neg _
  · rw [hsize]
    cases hnone : handlers.filter (·.type.isNone) with
    | nil =>
      have hpos : 0 < (handlers.filter (·.type.isSome)).length := by
        obtain ⟨h, hh⟩ := List.exists_mem_of_ne_nil handlers hne
        have hsome : h.type.isSome = true := by
          simpa [Option.isSome_iff_ne_none] using List.filter_eq_nil_iff.mp hnone h hh
        exact List.length_pos_of_mem (List.mem_filter.mpr ⟨hh, hsome⟩)
      exact .inl ⟨Int.natCast_pos.mpr hpos, rfl, rfl⟩
    | cons h rest =>
      rw [hnone, List.length_cons] at hone
      obtain rfl : rest = [] := List.eq_nil_of_length_eq_zero (by omega)
      have htype : h.type.isNone = true :=
        (List.mem_filter.mp (hnone ▸ List.mem_singleton_self h : h ∈ handlers.filter (·.type.isNone))).2
      obtain ⟨type, address⟩ := h
      obtain rfl : type = none := Option.isNone_iff_eq_none.mp htype
      exact .inr ⟨address, by simp, rfl, by simp⟩

/-- The entry of some handlers is read as these handlers in order. -/
theorem yields_readHandlers (htypes : image.ReadsTypes n) {handlers : List Handler}
    (hne : handlers ≠ []) (haddress : ∀ h ∈ handlers, h.address.toNat < extentBound) {form : List UInt8}
    (hform : writeHandlers n handlers = .ok form)
    (htyped : (handlers.filter (·.type.isSome)).length < extentBound) :
    Yields (readHandlers image) form (Handler.inOrder handlers) := by
  obtain ⟨size, entries, last, rfl, hentries, hsize, hlast⟩ := exists_parts_of_writeHandlers hne hform htyped
  have hread : List.Forall₂ (Yields (readTyped image)) entries (handlers.filter (·.type.isSome)) := by
    refine (forall₂_imp_of_mem (forall₂_of_mapM hentries) fun h hh entry _ hentry => ?_).flip
    obtain ⟨hh, htype⟩ := List.mem_filter.mp hh
    exact yields_readTyped htypes htype (haddress h hh) hentry
  have htimes := Yields.times hread
  refine (yields_sleb128 size).bind ?_
  dsimp only
  rw [hsize, Handler.inOrder]
  rcases hlast with ⟨hpos, hnone, rfl⟩ | ⟨address, hle, hnone, rfl⟩
  · refine htimes.bind ?_
    rw [if_neg (Int.not_le.mpr hpos), hnone, List.append_nil]
    exact .pure _
  · have hmem : ⟨none, address⟩ ∈ handlers :=
      (List.mem_filter.mp (hnone ▸ List.mem_singleton_self _ : _ ∈ handlers.filter (·.type.isNone))).1
    refine htimes.bind ?_
    rw [if_pos hle, hnone]
    exact (yields_smallUleb128 (haddress _ hmem)).bind_pure _

/-! ## The list of handlers -/

/-- The entries stand in the list of handlers at the positions that come with
them. -/
theorem exists_of_writeEntries {entries : List (List Handler)} {position : Nat}
    {places : List (List Handler × UInt16)} {form : List UInt8}
    (h : writeEntries n position entries = .ok (places, form)) :
    places.map (·.1) = entries ∧ ∀ place ∈ places, ∃ before entry after, form = before ++ entry ++ after ∧
      place.2.toNat = position + before.length ∧ writeHandlers n place.1 = .ok entry := by
  induction entries generalizing position places form with
  | nil =>
    cases h
    exact ⟨rfl, fun place hplace => nomatch hplace⟩
  | cons handlers entries ih =>
    obtain ⟨place, hplace, h⟩ := bind_eq_ok h
    obtain ⟨entry, hentry, h⟩ := bind_eq_ok h
    obtain ⟨⟨places, rest⟩, hrest, h⟩ := bind_eq_ok h
    cases h
    obtain ⟨hkeys, hplaces⟩ := ih hrest
    refine ⟨by rw [List.map_cons, hkeys], List.forall_mem_cons.mpr ⟨⟨[], entry, rest, rfl, ?_, hentry⟩, ?_⟩⟩
    · exact narrow_eq_ok hplace
    · intro p hp
      obtain ⟨before, entry', after, rfl, hat, hentry'⟩ := hplaces p hp
      refine ⟨entry ++ before, entry', after, by simp only [List.append_assoc], ?_, hentry'⟩
      rw [hat, List.length_append, Nat.add_assoc]

/-- The place of a try block is that of the entry of its handlers. -/
theorem exists_of_writeHandlerList {tries : List TryBlock} {form : List UInt8} {places : List UInt16}
    (h : writeHandlerList n tries = .ok (form, places)) :
    List.Forall₂ (fun t place => ∃ before entry after, form = before ++ entry ++ after ∧
      place.toNat = before.length ∧ writeHandlers n t.handlers = .ok entry) tries places := by
  obtain ⟨⟨table, entries⟩, hentries, h⟩ := bind_eq_ok h
  cases h
  obtain ⟨hkeys, htable⟩ := exists_of_writeEntries hentries
  rw [List.forall₂_map_right_iff, List.forall₂_same]
  intro t ht
  have hkey : t.handlers ∈ table.map (·.1) := by
    rw [hkeys, List.mem_eraseDups]
    exact List.mem_map_of_mem ht
  obtain ⟨p, hp, hkey⟩ := List.mem_map.mp hkey
  obtain ⟨place, hplace⟩ := Option.isSome_iff_exists.mp (List.lookup_isSome_iff.mpr ⟨p, hp, beq_iff_eq.mpr hkey.symm⟩)
  obtain ⟨first, last, rfl, -⟩ := List.lookup_eq_some_iff.mp hplace
  obtain ⟨before, entry, after, rfl, hat, hentry⟩ := htable (t.handlers, place) (by simp)
  refine ⟨_ ++ before, entry, after, by rw [List.append_assoc, List.append_assoc, List.append_assoc], ?_, hentry⟩
  rw [hplace, List.length_append]
  exact hat

/-! ## Try blocks -/

theorem yields_readTry {c : StoredCode} {t : TryBlock} (hstart : t.start.toNat < extentBound) {place : UInt16}
    {handlers : List Handler}
    (hhandlers : c.image.readAt (readHandlers c.image) (c.handlersStart + place.toNat) = .ok handlers) (index : Nat) :
    Yields (c.readTry index) (writeTry t place) { t with handlers } := by
  unfold writeTry
  rw [List.append_assoc]
  refine (yields_smallUint hstart).bind ((yields_ushort t.count).bind ((yields_ushort place).bind_nil ?_))
  dsimp only
  rw [hhandlers]
  exact (Value.yields_ofResult rfl).bind_pure _

/-- Try blocks are read one after the other as they were written. -/
theorem yields_readTries {c : StoredCode} {tries : List TryBlock} {places : List UInt16}
    (h : List.Forall₂ (fun t place => t.start.toNat < extentBound ∧
      c.image.readAt (readHandlers c.image) (c.handlersStart + place.toNat) = .ok (Handler.inOrder t.handlers))
      tries places) (index : Nat) :
    Yields (c.readTries index tries.length) (tries.zipWith writeTry places).flatten (tries.map TryBlock.inOrder) := by
  induction h generalizing index with
  | nil => exact .pure []
  | cons ht _ ih => exact (yields_readTry ht.1 ht.2 index).bind ((ih (index + 1)).bind_pure _)

theorem length_writeTry (t : TryBlock) (place : UInt16) : (writeTry t place).length = tryItemSize := by
  simp [writeTry, tryItemSize]

theorem length_writeTry_flatten {tries : List TryBlock} {places : List UInt16} {R : TryBlock → UInt16 → Prop}
    (h : List.Forall₂ R tries places) : (tries.zipWith writeTry places).flatten.length = tries.length * tryItemSize := by
  induction h with
  | nil => rfl
  | cons _ _ ih =>
    rw [List.zipWith_cons_cons, List.flatten_cons, List.length_append, length_writeTry, ih, List.length_cons,
      Nat.succ_mul, Nat.add_comm]

/-- What is written of the try blocks: the padding, the try items and the list of
handlers. -/
theorem exists_of_writeTries {units : Nat} {tries : List TryBlock} (hne : tries ≠ []) {form : List UInt8}
    (h : writeTries n units tries = .ok form) :
    ∃ handlers places, writeHandlerList n tries = .ok (handlers, places) ∧
      form = (if units % 2 = 0 then [] else Write.ushort 0) ++ (tries.zipWith writeTry places).flatten ++ handlers := by
  unfold writeTries at h
  rw [if_neg (by simpa using hne)] at h
  obtain ⟨⟨handlers, places⟩, hlist, h⟩ := bind_eq_ok h
  exact ⟨handlers, places, hlist, (Except.ok.inj h).symm⟩

section placed

variable {c : StoredCode} {tries : List TryBlock} (hcount : c.tryCount = tries.length) {form : List UInt8}
  (hform : writeTries n c.unitCount tries = .ok form)
  (hbytes : c.image.bytes.Holds (c.instructionsStart + 2 * c.unitCount) form)

include hcount hform hbytes

/-- Behind the instructions of a code item stand the try items, and behind these the list
of their handlers. -/
theorem exists_places (hne : tries ≠ []) : ∃ handlers places, writeHandlerList n tries = .ok (handlers, places) ∧
    form.length = 2 * (c.unitCount % 2) + c.tryCount * tryItemSize + handlers.length ∧
    c.image.bytes.Holds c.triesStart (tries.zipWith writeTry places).flatten ∧
    c.image.bytes.Holds c.handlersStart handlers := by
  obtain ⟨handlers, places, hlist, rfl⟩ := exists_of_writeTries hne hform
  have hitemsLength := length_writeTry_flatten (exists_of_writeHandlerList hlist)
  have hpadding : (if c.unitCount % 2 = 0 then [] else Write.ushort 0).length = 2 * (c.unitCount % 2) := by
    split
    · simp [*]
    · rw [Write.length_ushort]
      omega
  have hitems := hbytes.left.right
  have hlast := hbytes.right
  rw [List.length_append, hpadding, hitemsLength, ← hcount, ← Nat.add_assoc] at hlast
  rw [hpadding] at hitems
  refine ⟨handlers, places, hlist, ?_, hitems, hlast⟩
  rw [List.length_append, List.length_append, hpadding, hitemsLength, hcount]

/-- The entry of the handlers of each try block stands among the others. -/
theorem exists_entries (hne : tries ≠ []) : ∃ places,
    c.image.bytes.Holds c.triesStart (tries.zipWith writeTry places).flatten ∧
    List.Forall₂ (fun t place => ∃ entry, writeHandlers n t.handlers = .ok entry ∧ entry.length ≤ form.length ∧
      c.image.bytes.Holds (c.handlersStart + place.toNat) entry) tries places := by
  obtain ⟨handlers, places, hlist, hlength, hitems, hlast⟩ := exists_places hcount hform hbytes hne
  refine ⟨places, hitems, (exists_of_writeHandlerList hlist).imp ?_⟩
  rintro t place ⟨before, entry, after, rfl, hat, hentry⟩
  rw [List.length_append, List.length_append] at hlength
  exact ⟨entry, hentry, by omega, hat ▸ hlast.left.right⟩

/-- The try blocks behind the instructions of a code item. -/
theorem tries_eq (hreads : c.image.ReadsTypes n) (htries : ∀ t ∈ tries, t.Readable)
    (hlength : form.length < extentBound) : c.tries = .ok (tries.map TryBlock.inOrder) := by
  unfold StoredCode.tries
  by_cases hne : tries = []
  · subst hne
    rw [hcount]
    rfl
  · obtain ⟨places, hitems, hentries⟩ := exists_entries hcount hform hbytes hne
    have hread : ∀ t ∈ tries, ∀ place ∈ places, (∃ entry, writeHandlers n t.handlers = .ok entry ∧
        entry.length ≤ form.length ∧ c.image.bytes.Holds (c.handlersStart + place.toNat) entry) →
        t.start.toNat < extentBound ∧
        c.image.readAt (readHandlers c.image) (c.handlersStart + place.toNat) = .ok (Handler.inOrder t.handlers) := by
      rintro t ht place - ⟨entry, hentry, hle, hheld⟩
      have hread := yields_readHandlers hreads (htries t ht).handlers_ne_nil (htries t ht).address_lt hentry
        (length_typed_lt hentry (by omega))
      exact ⟨(htries t ht).start_lt, hread.at? hheld⟩
    rw [hcount, if_neg (by simpa using hne)]
    exact (yields_readTries (forall₂_imp_of_mem hentries hread) 0).at? hitems

end placed

/-! ## Whole items -/

/-- What a code item is made of: its head, the instructions and the try blocks. -/
theorem exists_of_encode {opcodes : Opcodes} {m : MethodDef} {code : Code} {debugOffset : UInt32} {form : List UInt8}
    (h : encode n opcodes m code debugOffset = .ok form) : ∃ indexed instructions units tryCount tries,
      (code.instructions.mapM fun i => i.mapReferences fun _ r => n.indexOf r) = .ok indexed ∧
      Instruction.encodeAll opcodes indexed = (instructions, .ok units) ∧
      narrow "try count" code.tries.length = .ok tryCount ∧ writeTries n units code.tries = .ok tries ∧
      form = Write.ushort code.registers ++ ((Write.ushort (UInt16.ofNat (incomingSize m)) ++
        Write.ushort (UInt16.ofNat (outgoingSize code.instructions))) ++ (Write.ushort tryCount ++
        (Write.uint debugOffset ++ (Write.uint (UInt32.ofNat units) ++ (instructions ++ tries))))) := by
  obtain ⟨indexed, hindexed, h⟩ := bind_eq_ok h
  obtain ⟨units, hunits, h⟩ := bind_eq_ok h
  obtain ⟨tryCount, htryCount, h⟩ := bind_eq_ok h
  obtain ⟨tries, htries, h⟩ := bind_eq_ok h
  refine ⟨indexed, _, units, tryCount, tries, hindexed, Prod.ext rfl hunits, htryCount, htries, ?_⟩
  rw [← Except.ok.inj h]
  simp only [List.append_assoc]
  rfl

end CodeItem

end Dalvik
